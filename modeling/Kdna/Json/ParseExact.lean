import Kdna.Json.Parse

/-!
# What the strict parser accepts

The parser reads exactly the JSON texts of documents within the bounds and without
duplicate keys. It returns the document in memory. A number has to be followed by a
character that cannot go on it, which is the case behind every value of a text.
-/

namespace Kdna

/-- Whitespace is skipped once. -/
theorem skipSpace_skipSpace (cs : List Char) : skipSpace (skipSpace cs) = skipSpace cs := by
  have hnone : NoSpace (skipSpace cs) := by
    intro c hc
    have h := List.head?_dropWhile_not isSpace cs
    rw [skipSpace] at hc
    rw [hc] at h
    simpa using h
  simpa using skipSpace_append (a := []) (List.forall_mem_nil _) hnone

theorem parseValue_skipSpace (levels : ℕ) (cs : List Char) :
    parseValue levels (skipSpace cs) = parseValue levels cs := by
  cases levels with
  | zero => rfl
  | succ levels => rw [parseValue, parseValue, skipSpace_skipSpace]

theorem parseItems_skipSpace (levels room : ℕ) (cs : List Char) :
    parseItems (parseValue levels) room (skipSpace cs) =
      parseItems (parseValue levels) room cs := by
  cases room with
  | zero => rfl
  | succ room => rw [parseItems, parseItems, parseValue_skipSpace]

theorem parseMembers_skipSpace (value : List Char → Except Failure (Json × List Char))
    (rounds : ℕ) (seen : List String) (cs : List Char) :
    parseMembers value rounds seen (skipSpace cs) = parseMembers value rounds seen cs := by
  cases rounds with
  | zero => rfl
  | succ rounds => rw [parseMembers, parseMembers, skipSpace_skipSpace]

section Sound

variable {levels : ℕ} {value : List Char → Except Failure (Json × List Char)}

/-- A successful read of `cs` up to `r` passed over a text of the document `d`. -/
structure Parsed (levels : ℕ) (cs : List Char) (v : Json) (r : List Char) (d : Json)
    (a c : List Char) : Prop where
  space : Space a
  split : cs = a ++ (c ++ r)
  text : JsonText d c
  strict : d.Strict levels
  distinct : d.DistinctKeys
  value : v = d.enumerated

/-- Every successful read of `value` passed over a text. -/
def Parses (levels : ℕ) (value : List Char → Except Failure (Json × List Char)) : Prop :=
  ∀ cs v r, value cs = .ok (v, r) → ∃ d a c, Parsed levels cs v r d a c

/-- A list of texts is extended at its front. -/
theorem CommaList.cons {p : List Char → Prop} {ps : List (List Char → Prop)} {c d : List Char}
    (hne : ps ≠ []) (hc : Spaced p c) (hd : CommaList ps d) : CommaList (p :: ps) (c ++ ',' :: d) := by
  cases ps with
  | nil => exact absurd rfl hne
  | cons q ps => exact ⟨c, d, hc, hd, rfl⟩

/-- The items read are the texts of a list. -/
theorem parseItems_sound (hvalue : Parses levels value) {room : ℕ} {cs r : List Char}
    {vs : List Json} (h : parseItems value room cs = .ok (vs, r)) :
    ∃ (ds : List Json) (body : List Char), ds ≠ [] ∧ ds.length ≤ room ∧
      CommaList (ds.map JsonText) body ∧ cs = body ++ ']' :: r ∧
      (∀ d ∈ ds, d.Strict levels ∧ d.DistinctKeys) ∧ vs = ds.map Value.enumerated := by
  induction room generalizing cs vs with
  | zero => cases h
  | succ room ih =>
    rw [parseItems] at h
    obtain ⟨⟨v, cs₁⟩, hv, h⟩ := bind_eq_ok_iff.mp h
    obtain ⟨d, a, c, ha, rfl, hc, hstrict, hdistinct, rfl⟩ := hvalue _ _ _ hv
    obtain ⟨b, hb, hsplit⟩ := skipSpace_split cs₁
    have hspaced : Spaced (JsonText d) (a ++ (c ++ b)) := ⟨a, c, b, ha, hc, hb, rfl⟩
    simp only at h
    cases hrest : skipSpace cs₁ with
    | nil =>
      rw [hrest] at h
      cases h
    | cons e rest =>
      rw [hrest] at h hsplit
      simp only at h
      split_ifs at h with hend hcomma
      · obtain ⟨rfl, rfl⟩ := Prod.mk.inj (Except.ok.inj h)
        refine ⟨[d], a ++ (c ++ b), List.cons_ne_nil _ _, Nat.succ_le_succ (Nat.zero_le _), hspaced,
          by rw [hsplit, hend]; simp, List.forall_mem_singleton.mpr ⟨hstrict, hdistinct⟩, rfl⟩
      · obtain ⟨⟨ws, cs₂⟩, hws, h⟩ := bind_eq_ok_iff.mp h
        obtain ⟨rfl, rfl⟩ := Prod.mk.inj (Except.ok.inj h)
        obtain ⟨ds, body, hne, hlen, hbody, rfl, hall, rfl⟩ := ih hws
        refine ⟨d :: ds, (a ++ (c ++ b)) ++ ',' :: body, List.cons_ne_nil _ _,
          Nat.succ_le_succ hlen, .cons (by simpa using hne) hspaced hbody, by rw [hsplit, hcomma]; simp,
          List.forall_mem_cons.mpr ⟨⟨hstrict, hdistinct⟩, hall⟩, rfl⟩

/-- The members read are the texts of a list, and their keys are new. -/
theorem parseMembers_sound (hvalue : Parses levels value) {rounds : ℕ} {seen : List String}
    {cs r : List Char} {vs : List (String × Json)}
    (h : parseMembers value rounds seen cs = .ok (vs, r)) :
    ∃ (ds : List (String × Json)) (body : List Char), ds ≠ [] ∧
      CommaList (ds.map fun p => Member p.1 (JsonText p.2)) body ∧ cs = body ++ '}' :: r ∧
      (∀ p ∈ ds, (Utf8.encode p.1).length ≤ maxStringBytes ∧ p.2.Strict levels) ∧
      (∀ p ∈ ds, p.2.DistinctKeys) ∧ (ds.map Prod.fst).Nodup ∧ (∀ p ∈ ds, p.1 ∉ seen) ∧
      vs = ds.map fun p => (p.1, p.2.enumerated) := by
  induction rounds generalizing cs vs seen with
  | zero => cases h
  | succ rounds ih =>
    rw [parseMembers] at h
    obtain ⟨a, ha, hsplit⟩ := skipSpace_split cs
    generalize skipSpace cs = cs₀ at h hsplit
    subst hsplit
    match cs₀, h with
    | quote :: cs₀, h =>
      obtain ⟨hquote, h⟩ := require_bind_eq_ok_iff.mp h
      obtain ⟨⟨key, cs₁⟩, hkey, h⟩ := bind_eq_ok_iff.mp h
      obtain ⟨hnew, h⟩ := require_bind_eq_ok_iff.mp h
      obtain ⟨k, hk, hkeysplit, hlen⟩ := parseString_sound hkey
      obtain ⟨b, hb, hsplit⟩ := skipSpace_split cs₁
      simp only at h
      cases hrest : skipSpace cs₁ with
      | nil =>
        rw [hrest] at h
        cases h
      | cons colon cs₂ =>
        rw [hrest] at h hsplit
        obtain ⟨hcolon, h⟩ := require_bind_eq_ok_iff.mp h
        obtain ⟨⟨v, cs₃⟩, hv, h⟩ := bind_eq_ok_iff.mp h
        obtain ⟨d, a', c, ha', rfl, hc, hstrict, hdistinct, rfl⟩ := hvalue _ _ _ hv
        obtain ⟨e, he, hsplit'⟩ := skipSpace_split cs₃
        simp only at h
        cases hrest' : skipSpace cs₃ with
        | nil =>
          rw [hrest'] at h
          cases h
        | cons stop rest =>
          rw [hrest'] at h hsplit'
          have hmember : Member key (JsonText d) (k ++ (b ++ ':' :: (a' ++ c))) :=
            ⟨k, b, a', c, hk, hb, ha', hc, rfl⟩
          have hspaced : Spaced (Member key (JsonText d))
              (a ++ ((k ++ (b ++ ':' :: (a' ++ c))) ++ e)) := ⟨a, _, e, ha, hmember, he, rfl⟩
          have htext : a ++ quote :: cs₀ =
              (a ++ ((k ++ (b ++ ':' :: (a' ++ c))) ++ e)) ++ stop :: rest := by
            rw [hquote, hkeysplit, hsplit, hcolon, hsplit']
            simp
          rw [htext]
          simp only at h
          split_ifs at h with hend hcomma
          · obtain ⟨rfl, rfl⟩ := Prod.mk.inj (Except.ok.inj h)
            exact ⟨[(key, d)], _, List.cons_ne_nil _ _, hspaced, by rw [hend],
              List.forall_mem_singleton.mpr ⟨hlen, hstrict⟩, List.forall_mem_singleton.mpr hdistinct,
              List.nodup_singleton _, List.forall_mem_singleton.mpr hnew, rfl⟩
          · obtain ⟨⟨ws, cs₄⟩, hws, h⟩ := bind_eq_ok_iff.mp h
            obtain ⟨rfl, rfl⟩ := Prod.mk.inj (Except.ok.inj h)
            obtain ⟨ds, body, hne, hbody, rfl, hall, hkeys, hnodup, hseen, rfl⟩ := ih hws
            refine ⟨(key, d) :: ds, _, List.cons_ne_nil _ _,
              .cons (by simpa using hne) hspaced hbody, by rw [hcomma]; simp,
              List.forall_mem_cons.mpr ⟨⟨hlen, hstrict⟩, hall⟩,
              List.forall_mem_cons.mpr ⟨hdistinct, hkeys⟩, ?_, ?_, rfl⟩
            · rw [List.map_cons, List.nodup_cons]
              refine ⟨fun hmem => ?_, hnodup⟩
              obtain ⟨q, hq, heq⟩ := List.mem_map.mp hmem
              exact hseen q hq (heq ▸ List.mem_cons_self)
            · exact List.forall_mem_cons.mpr
                ⟨hnew, fun q hq hmem => hseen q hq (List.mem_cons_of_mem _ hmem)⟩

/-- A scalar read is the text of a document with no parts. -/
theorem parseScalar_sound {cs r : List Char} {v : Json} (h : parseScalar cs = .ok (v, r)) :
    ∃ c, cs = c ++ r ∧ JsonText v c ∧ v.Strict (levels + 1) ∧ v.DistinctKeys ∧ v = v.enumerated := by
  have hdrop : ∀ {word : List Char} {n : ℕ}, word.isPrefixOf cs = true → word.length = n →
      cs = word ++ cs.drop n := by
    rintro word _ hprefix rfl
    obtain ⟨t, rfl⟩ := List.isPrefixOf_iff_prefix.mp hprefix
    rw [List.drop_left]
  unfold parseScalar at h
  split_ifs at h with htrue hfalse hnull
  · obtain ⟨rfl, rfl⟩ := Prod.mk.inj (Except.ok.inj h)
    exact ⟨_, hdrop htrue rfl, rfl, trivial, trivial, rfl⟩
  · obtain ⟨rfl, rfl⟩ := Prod.mk.inj (Except.ok.inj h)
    exact ⟨_, hdrop hfalse rfl, rfl, trivial, trivial, rfl⟩
  · obtain ⟨rfl, rfl⟩ := Prod.mk.inj (Except.ok.inj h)
    exact ⟨_, hdrop hnull rfl, rfl, trivial, trivial, rfl⟩
  · obtain ⟨⟨token, cs₁⟩, htoken, h⟩ := bind_eq_ok_iff.mp h
    obtain ⟨x, hx, h⟩ := bind_eq_ok_iff.mp h
    obtain ⟨rfl, rfl⟩ := Prod.mk.inj (Except.ok.inj h)
    rw [orFail_eq_ok_iff] at htoken hx
    obtain ⟨hvalid, rfl⟩ := matchNumber_sound htoken
    exact ⟨token.text, rfl, ⟨token, hvalid, hx, rfl⟩, trivial, trivial, rfl⟩

/-- Every successful parse passed over the text of a document within the bounds. -/
theorem parseValue_sound (levels : ℕ) : Parses levels (parseValue levels) := by
  induction levels with
  | zero => exact fun cs v r h => nomatch h
  | succ levels ih =>
    intro cs v r h
    rw [parseValue] at h
    obtain ⟨a, ha, hsplit⟩ := skipSpace_split cs
    generalize skipSpace cs = cs₀ at h hsplit
    subst hsplit
    match cs₀, h with
    | first :: cs₀, h =>
      simp only at h
      split_ifs at h with hquote hobject hempty harray hempty
      · obtain ⟨⟨t, cs₁⟩, ht, h⟩ := bind_eq_ok_iff.mp h
        obtain ⟨rfl, rfl⟩ := Prod.mk.inj (Except.ok.inj h)
        obtain ⟨c, hc, hsplit, hlen⟩ := parseString_sound ht
        exact ⟨.str t, a, c, ha, by rw [hquote, hsplit], hc, hlen, trivial, rfl⟩
      · obtain ⟨rfl, rfl⟩ := Prod.mk.inj (Except.ok.inj h)
        obtain ⟨b, hb, hsplit⟩ := skipSpace_split cs₀
        obtain ⟨rest, hrest⟩ := List.head?_eq_some_iff.mp hempty
        refine ⟨.obj [], a, '{' :: (b ++ ['}']), ha, ?_, (jsonText_obj _ _).mpr ⟨b, hb, rfl⟩,
          List.forall_mem_nil _, by simp, rfl⟩
        rw [hrest] at hsplit ⊢
        rw [hobject, hsplit]
        simp
      · obtain ⟨⟨props, cs₁⟩, hprops, h⟩ := bind_eq_ok_iff.mp h
        obtain ⟨rfl, rfl⟩ := Prod.mk.inj (Except.ok.inj h)
        rw [parseMembers_skipSpace] at hprops
        obtain ⟨ds, body, -, hbody, rfl, hall, hkeys, hnodup, -, rfl⟩ :=
          parseMembers_sound ih hprops
        refine ⟨.obj ds, a, '{' :: (body ++ ['}']), ha, by rw [hobject]; simp,
          (jsonText_obj _ _).mpr ⟨body, hbody, rfl⟩, hall,
          (Value.distinctKeys_obj _).mpr ⟨hnodup, hkeys⟩, (Value.enumerated_obj _).symm⟩
      · obtain ⟨rfl, rfl⟩ := Prod.mk.inj (Except.ok.inj h)
        obtain ⟨b, hb, hsplit⟩ := skipSpace_split cs₀
        obtain ⟨rest, hrest⟩ := List.head?_eq_some_iff.mp hempty
        refine ⟨.arr [], a, '[' :: (b ++ [']']), ha, ?_, (jsonText_arr _ _).mpr ⟨b, hb, rfl⟩,
          ⟨Nat.zero_le _, List.forall_mem_nil _⟩, by simp, rfl⟩
        rw [hrest] at hsplit ⊢
        rw [harray, hsplit]
        simp
      · obtain ⟨⟨items, cs₁⟩, hitems, h⟩ := bind_eq_ok_iff.mp h
        obtain ⟨rfl, rfl⟩ := Prod.mk.inj (Except.ok.inj h)
        rw [parseItems_skipSpace] at hitems
        obtain ⟨ds, body, -, hlen, hbody, rfl, hall, rfl⟩ := parseItems_sound ih hitems
        refine ⟨.arr ds, a, '[' :: (body ++ [']']), ha, by rw [harray]; simp,
          (jsonText_arr _ _).mpr ⟨body, hbody, rfl⟩, ⟨hlen, fun d hd => (hall d hd).1⟩,
          (Value.distinctKeys_arr _).mpr fun d hd => (hall d hd).2,
          (Value.enumerated_arr _).symm⟩
      · obtain ⟨c, hc, htext, hstrict, hdistinct, henum⟩ := parseScalar_sound h
        exact ⟨v, a, c, ha, by rw [hc], htext, hstrict, hdistinct, henum⟩

end Sound

section Complete

variable {levels : ℕ} {value : List Char → Except Failure (Json × List Char)}

/-- A character that a value can start with. -/
def startsValue (c : Char) : Bool :=
  c == '"' || c == '{' || c == '[' || c == 't' || c == 'f' || c == 'n' || c == '-' || c.isDigit

/-- A text of a number starts with a minus sign or a digit. -/
theorem NumberLiteral.head {x : Binary64} {c : List Char} (h : NumberLiteral x c) :
    ∃ e t, c = e :: t ∧ (e = '-' ∨ e.isDigit = true) := by
  obtain ⟨t, ht, -, rfl⟩ := h
  cases hminus : t.negative with
  | true => exact ⟨'-', _, by rw [NumberToken.text, hminus]; rfl, .inl rfl⟩
  | false =>
    obtain ⟨e, ds, hwhole, he⟩ := head_of_isCanonicalNumber ht.whole
    exact ⟨e, _, by rw [NumberToken.text, hminus, hwhole]; rfl, .inr he⟩

/-- A text of a value starts with a character that a value can start with. -/
theorem JsonText.head {d : Json} {c : List Char} (h : JsonText d c) :
    ∃ e t, c = e :: t ∧ startsValue e = true := by
  cases d with
  | null => exact ⟨'n', _, h, rfl⟩
  | bool b => cases b <;> exact ⟨_, _, h, rfl⟩
  | num x =>
    obtain ⟨e, t, rfl, he⟩ := NumberLiteral.head h
    refine ⟨e, t, rfl, ?_⟩
    rcases he with rfl | he
    · rfl
    · simp [startsValue, he]
  | str t =>
    obtain ⟨body, -, rfl⟩ := h
    exact ⟨'"', _, rfl, rfl⟩
  | arr items =>
    obtain ⟨body, -, rfl⟩ := (jsonText_arr _ _).mp h
    exact ⟨'[', _, rfl, rfl⟩
  | obj props =>
    obtain ⟨body, -, rfl⟩ := (jsonText_obj _ _).mp h
    exact ⟨'{', _, rfl, rfl⟩

/-- Whitespace does not go on a number. -/
theorem continuesNumber_of_isSpace {c : Char} (h : isSpace c = true) : continuesNumber c = false := by
  simp only [isSpace, Bool.or_eq_true, beq_iff_eq] at h
  rcases h with ((rfl | rfl) | rfl) | rfl <;> rfl

/-- Behind whitespace and a mark no number goes on. -/
theorem ends_append {a r : List Char} (ha : Space a) (hr : Ends r) : Ends (a ++ r) := by
  cases a with
  | nil => exact hr
  | cons c a =>
    intro e he
    obtain rfl := Option.some.inj he
    exact continuesNumber_of_isSpace (ha c List.mem_cons_self)

theorem ends_cons {c : Char} (hc : continuesNumber c = false) (r : List Char) : Ends (c :: r) := by
  intro e he
  obtain rfl := Option.some.inj he
  exact hc

theorem noSpace_cons {c : Char} (hc : isSpace c = false) (r : List Char) : NoSpace (c :: r) := by
  intro e he
  obtain rfl := Option.some.inj he
  exact hc

/-- `value` reads every text of `d`, with whitespace before it, as `g d`. -/
def ReadsText (value : List Char → Except Failure (Json × List Char)) (g : Json → Json)
    (d : Json) : Prop :=
  ∀ a c r, Space a → JsonText d c → Ends r → value (a ++ (c ++ r)) = .ok (g d, r)

/-- The texts of a list are read up to the closing bracket. -/
theorem parseItems_complete {g : Json → Json} {ds : List Json} {body : List Char} {room : ℕ}
    (hne : ds ≠ []) (hroom : ds.length ≤ room) (hvalue : ∀ d ∈ ds, ReadsText value g d)
    (hbody : CommaList (ds.map JsonText) body) (r : List Char) :
    parseItems value room (body ++ ']' :: r) = .ok (ds.map g, r) := by
  induction ds generalizing body room with
  | nil => exact absurd rfl hne
  | cons d ds ih =>
    obtain _ | room := room
    · exact absurd hroom (Nat.not_succ_le_zero _)
    cases ds with
    | nil =>
      obtain ⟨a, b, c, ha, hb, hc, rfl⟩ := hbody
      have hread := hvalue d List.mem_cons_self a b (c ++ ']' :: r) ha hb
        (ends_append hc (ends_cons rfl r))
      have hskip := skipSpace_append hc (noSpace_cons (c := ']') rfl r)
      simp only [List.append_assoc]
      rw [parseItems, hread, ok_bind]
      simp only [hskip]
      rfl
    | cons d' ds =>
      obtain ⟨_, rest, ⟨a, b, c, ha, hb, hc, rfl⟩, hrest, rfl⟩ := hbody
      have hread := hvalue d List.mem_cons_self a b (c ++ ',' :: (rest ++ ']' :: r)) ha hb
        (ends_append hc (ends_cons rfl _))
      have hskip := skipSpace_append hc (noSpace_cons (c := ',') rfl (rest ++ ']' :: r))
      have htail := ih (List.cons_ne_nil _ _) (Nat.le_of_succ_le_succ hroom)
        (fun w hw => hvalue w (.tail _ hw)) hrest
      simp only [List.append_assoc, List.cons_append]
      rw [parseItems, hread, ok_bind]
      simp only [hskip]
      rw [if_neg (by decide), if_pos trivial, htail]
      rfl

/-- The members of a list are read up to the closing brace when their keys are new. -/
theorem parseMembers_complete {g : Json → Json} {ds : List (String × Json)} {body : List Char}
    {rounds : ℕ} {seen : List String} (hne : ds ≠ []) (hrounds : ds.length ≤ rounds)
    (hkey : ∀ p ∈ ds, (Utf8.encode p.1).length ≤ maxStringBytes)
    (hvalue : ∀ p ∈ ds, ReadsText value g p.2) (hnodup : (ds.map Prod.fst).Nodup)
    (hseen : ∀ p ∈ ds, p.1 ∉ seen)
    (hbody : CommaList (ds.map fun p => Member p.1 (JsonText p.2)) body) (r : List Char) :
    parseMembers value rounds seen (body ++ '}' :: r) =
      .ok (ds.map fun p => (p.1, g p.2), r) := by
  induction ds generalizing body rounds seen with
  | nil => exact absurd rfl hne
  | cons p ds ih =>
    obtain _ | rounds := rounds
    · exact absurd hrounds (Nat.not_succ_le_zero _)
    -- a member is read up to what follows its value
    have hmember : ∀ (a k b b' v s : List Char) (stop : Char) (rest : List Char), Space a →
        StringLiteral p.1 k → Space b → Space b' → JsonText p.2 v → Space s →
        isSpace stop = false → continuesNumber stop = false →
        parseMembers value (rounds + 1) seen
            (a ++ (k ++ (b ++ ':' :: (b' ++ (v ++ (s ++ stop :: rest)))))) =
          if stop = '}' then .ok ([(p.1, g p.2)], rest)
          else if stop = ',' then
            parseMembers value rounds (p.1 :: seen) rest >>= fun q =>
              pure ((p.1, g p.2) :: q.1, q.2)
          else .error .inputInvalid := by
      intro a k b b' v s stop rest ha hk hb hb' hv hs hspace hends
      obtain ⟨tail, rfl, hstring⟩ := parseString_complete hk (hkey p List.mem_cons_self)
        (b ++ ':' :: (b' ++ (v ++ (s ++ stop :: rest))))
      have hskip := skipSpace_append ha (noSpace_cons (c := '"') rfl
        (tail ++ (b ++ ':' :: (b' ++ (v ++ (s ++ stop :: rest))))))
      have hcolon := skipSpace_append hb (noSpace_cons (c := ':') rfl
        (b' ++ (v ++ (s ++ stop :: rest))))
      have hread := hvalue p List.mem_cons_self b' v (s ++ stop :: rest) hb' hv
        (ends_append hs (ends_cons hends rest))
      have hstop := skipSpace_append hs (noSpace_cons hspace rest)
      rw [List.cons_append, parseMembers, hskip]
      simp only
      rw [require_bind_of_pos trivial, hstring, ok_bind]
      simp only
      rw [require_bind_of_pos (hseen p List.mem_cons_self), hcolon]
      simp only
      rw [require_bind_of_pos trivial, hread, ok_bind]
      simp only [hstop]
    rw [List.map_cons, List.nodup_cons] at hnodup
    cases ds with
    | nil =>
      obtain ⟨a, _, s, ha, ⟨k, b, b', v, hk, hb, hb', hv, rfl⟩, hs, rfl⟩ := hbody
      have h := hmember a k b b' v s '}' r ha hk hb hb' hv hs rfl rfl
      simp only [List.append_assoc, List.cons_append]
      rw [h]
      rfl
    | cons q ds =>
      obtain ⟨_, rest, ⟨a, _, s, ha, ⟨k, b, b', v, hk, hb, hb', hv, rfl⟩, hs, rfl⟩, hrest, rfl⟩ :=
        hbody
      have h := hmember a k b b' v s ',' (rest ++ '}' :: r) ha hk hb hb' hv hs rfl rfl
      have hnew : ∀ q' ∈ q :: ds, q'.1 ∉ p.1 :: seen := by
        intro q' hq
        rw [List.mem_cons, not_or]
        exact ⟨fun heq => hnodup.1 (heq ▸ List.mem_map_of_mem (f := Prod.fst) hq),
          hseen q' (.tail _ hq)⟩
      have htail := ih (List.cons_ne_nil _ _) (Nat.le_of_succ_le_succ hrounds)
        (fun q' hq => hkey q' (.tail _ hq)) (fun q' hq => hvalue q' (.tail _ hq)) hnodup.2 hnew hrest
      simp only [List.append_assoc, List.cons_append]
      rw [h, if_neg (by decide), if_pos rfl, htail]
      rfl

/-- A text of no items or members is whitespace before the closing bracket. -/
theorem skipSpace_close {body : List Char} {stop : Char} (hstop : isSpace stop = false)
    (hbody : Space body) (r : List Char) : skipSpace (body ++ stop :: r) = stop :: r :=
  skipSpace_append hbody (noSpace_cons hstop r)

/-- Behind its whitespace a list that is not empty starts as its first text does. -/
theorem CommaList.skipSpace {p : List Char → Prop} {ps : List (List Char → Prop)}
    {body : List Char} {q : Char → Prop} (hbody : CommaList (p :: ps) body)
    (hp : ∀ b, p b → ∃ e t, b = e :: t ∧ isSpace e = false ∧ q e) (r : List Char) :
    ∃ e t, skipSpace (body ++ r) = e :: t ∧ q e := by
  have hspaced : ∃ c d, Spaced p c ∧ body = c ++ d := by
    cases ps with
    | nil => exact ⟨body, [], hbody, (List.append_nil _).symm⟩
    | cons q ps =>
      obtain ⟨c, d, hc, -, rfl⟩ := hbody
      exact ⟨c, _, hc, rfl⟩
  obtain ⟨_, d, ⟨a, b, c, ha, hb, hc, rfl⟩, rfl⟩ := hspaced
  obtain ⟨e, t, rfl, he, hq⟩ := hp b hb
  refine ⟨e, t ++ (c ++ (d ++ r)), ?_, hq⟩
  simp only [List.append_assoc, List.cons_append]
  exact skipSpace_append ha (noSpace_cons he _)

/-- A list has a comma between any two of its texts. -/
theorem CommaList.length_le {ps : List (List Char → Prop)} {body : List Char}
    (h : CommaList ps body) : ps.length ≤ body.length + 1 := by
  induction ps generalizing body with
  | nil => exact Nat.zero_le _
  | cons p ps ih =>
    cases ps with
    | nil => exact Nat.succ_le_succ (Nat.zero_le _)
    | cons q ps =>
      obtain ⟨c, d, -, hd, rfl⟩ := h
      have hbound := ih hd
      simp only [List.length_append, List.length_cons] at hbound ⊢
      omega

/-- A character that a value can start with is no whitespace and closes nothing. -/
theorem startsValue_spec {e : Char} (h : startsValue e = true) :
    isSpace e = false ∧ e ≠ ']' ∧ e ≠ '}' := by
  refine ⟨?_, ?_, ?_⟩
  · rw [← Bool.not_eq_true]
    intro hspace
    simp only [isSpace, Bool.or_eq_true, beq_iff_eq] at hspace
    rcases hspace with ((rfl | rfl) | rfl) | rfl <;> exact absurd h (by decide)
  · rintro rfl
    exact absurd h (by decide)
  · rintro rfl
    exact absurd h (by decide)

/-- A number is read as a scalar. -/
theorem parseScalar_number {x : Binary64} {c r : List Char} (h : NumberLiteral x c) (hr : Ends r) :
    parseScalar (c ++ r) = .ok (.num x, r) := by
  obtain ⟨e, t, hhead, he⟩ := h.head
  have hne : ∀ d : Char, d ≠ '-' → d.isDigit = false → d ≠ e := by
    rintro d hd hdigit rfl
    rcases he with he | he
    · exact hd he
    · rw [hdigit] at he
      cases he
  have hword : ∀ (d : Char) (word : List Char), d ≠ '-' → d.isDigit = false →
      ¬ (d :: word).isPrefixOf (c ++ r) = true := by
    intro d word hd hdigit hprefix
    rw [hhead, List.cons_append, List.isPrefixOf_iff_prefix, List.cons_prefix_cons] at hprefix
    exact hne d hd hdigit hprefix.1
  have htrue : ¬ "true".toList.isPrefixOf (c ++ r) = true := hword 't' _ (by decide) rfl
  have hfalse : ¬ "false".toList.isPrefixOf (c ++ r) = true := hword 'f' _ (by decide) rfl
  have hnull : ¬ "null".toList.isPrefixOf (c ++ r) = true := hword 'n' _ (by decide) rfl
  obtain ⟨token, htoken, hnumber, rfl⟩ := h
  unfold parseScalar
  rw [if_neg htrue, if_neg hfalse, if_neg hnull, matchNumber_complete htoken hr, orFail, ok_bind]
  simp only
  rw [hnumber]
  rfl

/-- Every text of a document within the bounds and without duplicate keys is read as
the document in memory. -/
theorem parseValue_complete {levels : ℕ} {d : Json} (hstrict : d.Strict levels)
    (hkeys : d.DistinctKeys) : ReadsText (parseValue levels) Value.enumerated d := by
  induction levels generalizing d with
  | zero => exact absurd hstrict id
  | succ levels ih =>
    intro a c r ha hc hr
    obtain ⟨e, t, hhead, he⟩ := hc.head
    obtain ⟨hspace, -, -⟩ := startsValue_spec he
    have hskip : skipSpace (a ++ (c ++ r)) = e :: (t ++ r) := by
      rw [hhead, List.cons_append]
      exact skipSpace_append ha (noSpace_cons hspace _)
    rw [parseValue, hskip]
    simp only
    cases d with
    | null =>
      obtain rfl := (jsonText_null _).mp hc
      obtain ⟨rfl, rfl⟩ := List.cons.inj hhead
      rfl
    | bool b =>
      cases b <;> (cases hc; obtain ⟨rfl, rfl⟩ := List.cons.inj hhead; rfl)
    | num x =>
      obtain ⟨e', t', hhead', he'⟩ := NumberLiteral.head hc
      obtain ⟨rfl, rfl⟩ := List.cons.inj (hhead.symm.trans hhead')
      have hne : ∀ q : Char, q ≠ '-' → q.isDigit = false → e ≠ q := by
        rintro q hq hdigit rfl
        rcases he' with he' | he'
        · exact hq he'
        · rw [hdigit] at he'
          cases he'
      rw [if_neg (hne '"' (by decide) rfl), if_neg (hne '{' (by decide) rfl),
        if_neg (hne '[' (by decide) rfl), ← List.cons_append, ← hhead]
      exact parseScalar_number hc hr
    | str s =>
      obtain ⟨tail, htail, hstring⟩ := parseString_complete hc hstrict r
      obtain ⟨rfl, rfl⟩ := List.cons.inj (hhead.symm.trans htail)
      rw [if_pos rfl, hstring]
      rfl
    | arr items =>
      obtain ⟨body, hbody, hlist⟩ := (jsonText_arr _ _).mp hc
      obtain ⟨rfl, rfl⟩ := List.cons.inj (hhead.symm.trans hlist)
      rw [if_neg (by decide), if_neg (by decide), if_pos rfl, Value.enumerated_arr]
      rw [Value.distinctKeys_arr] at hkeys
      simp only [List.append_assoc, List.singleton_append]
      cases items with
      | nil =>
        rw [skipSpace_close rfl hbody]
        rfl
      | cons v vs =>
        obtain ⟨q, t, hq, hqne⟩ := hbody.skipSpace (q := (· ≠ ']')) (fun b hb => by
          obtain ⟨q, t, rfl, hq⟩ := JsonText.head hb
          exact ⟨q, t, rfl, (startsValue_spec hq).1, (startsValue_spec hq).2.1⟩) (']' :: r)
        have hread := parseItems_complete (List.cons_ne_nil v vs) hstrict.1
          (fun w hw => ih (hstrict.2 w hw) (hkeys w hw)) hbody r
        rw [if_neg (by rw [hq]; exact fun h => hqne (Option.some.inj h)), parseItems_skipSpace, hread]
        rfl
    | obj props =>
      obtain ⟨body, hbody, hlist⟩ := (jsonText_obj _ _).mp hc
      obtain ⟨rfl, rfl⟩ := List.cons.inj (hhead.symm.trans hlist)
      rw [if_neg (by decide), if_pos rfl, Value.enumerated_obj]
      rw [Value.distinctKeys_obj] at hkeys
      simp only [List.append_assoc, List.singleton_append]
      cases props with
      | nil =>
        rw [skipSpace_close rfl hbody]
        rfl
      | cons p ps =>
        obtain ⟨q, t, hq, hqne⟩ := hbody.skipSpace (q := (· ≠ '}')) (fun b hb => by
          obtain ⟨k, a, b, c, ⟨content, -, rfl⟩, -, -, -, rfl⟩ := hb
          exact ⟨'"', _, rfl, rfl, by decide⟩) ('}' :: r)
        have hlen : (p :: ps).length ≤ (body ++ '}' :: r).length := by
          have hbound := hbody.length_le
          simp only [List.length_map, List.length_append, List.length_cons] at hbound ⊢
          omega
        have hread := parseMembers_complete (List.cons_ne_nil p ps) hlen
          (fun w hw => (hstrict w hw).1) (fun w hw => ih (hstrict w hw).2 (hkeys.2 w hw)) hkeys.1
          (fun _ _ => List.not_mem_nil) hbody r
        rw [if_neg (by rw [hq]; exact fun h => hqne (Option.some.inj h)), parseMembers_skipSpace,
          hread]
        rfl

end Complete

/-- `b` is the encoding of a JSON text of a document within the bounds, with distinct
keys, that is `v` in memory. -/
def JsonBytes (v : Json) (b : Bytes) : Prop :=
  ∃ s d, Utf8.encode s = b ∧ b.length ≤ maxPayloadBytes ∧ Spaced (JsonText d) s.toList ∧
    d.Strict (maxDepth + 1) ∧ d.DistinctKeys ∧ d.enumerated = v

/-- The parser accepts exactly the JSON texts of documents within the bounds. -/
theorem parseText_eq_ok_iff {text : String} {v : Json} :
    parseText text = .ok v ↔ JsonBytes v (Utf8.encode text) := by
  constructor
  · intro h
    obtain ⟨hlen, h⟩ := require_bind_eq_ok_iff.mp h
    obtain ⟨⟨v', rest⟩, hvalue, h⟩ := bind_eq_ok_iff.mp h
    obtain ⟨hrest, h⟩ := require_bind_eq_ok_iff.mp h
    obtain rfl := Except.ok.inj h
    obtain ⟨d, a, c, ha, hsplit, hc, hstrict, hkeys, rfl⟩ := parseValue_sound _ _ _ _ hvalue
    obtain ⟨b, hb, hspace⟩ := skipSpace_split rest
    rw [hrest, List.append_nil] at hspace
    exact ⟨text, d, rfl, hlen, ⟨a, c, b, ha, hc, hb, by rw [hsplit, hspace]⟩, hstrict, hkeys, rfl⟩
  · rintro ⟨s, d, henc, hlen, ⟨a, c, b, ha, hc, hb, hsplit⟩, hstrict, hkeys, rfl⟩
    obtain rfl := Utf8.encode_injective henc
    have hends : Ends b := by
      have h := ends_append hb (r := []) (fun _ h => nomatch h)
      rwa [List.append_nil] at h
    have hskip : skipSpace b = [] := by
      have h := skipSpace_append hb (r := []) (fun _ h => nomatch h)
      rwa [List.append_nil] at h
    rw [parseText, require_bind_of_pos hlen, hsplit, parseValue_complete hstrict hkeys a c b ha hc hends,
      ok_bind]
    simp only
    rw [require_bind_of_pos hskip]
    rfl

/-- A JSON text does not start with U+FEFF. -/
theorem JsonBytes.unmarked {v : Json} {b : Bytes} (h : JsonBytes v b) : ¬ Utf8.bom <+: b := by
  obtain ⟨s, d, rfl, -, ⟨a, c, e, ha, hc, -, hsplit⟩, -⟩ := h
  rw [Utf8.bom_isPrefix_encode_iff]
  rintro ⟨cs, hcs⟩
  rw [hcs] at hsplit
  cases a with
  | nil =>
    obtain ⟨q, t, rfl, hq⟩ := hc.head
    obtain ⟨rfl, -⟩ := List.cons.inj hsplit
    exact absurd hq (by decide)
  | cons q a =>
    obtain ⟨rfl, -⟩ := List.cons.inj hsplit
    exact absurd (ha _ List.mem_cons_self) (by decide)

/-- The octets of the mark are those of U+FEFF. -/
theorem encode_cons_bom (s : String) :
    Utf8.encode (String.ofList ('\uFEFF' :: s.toList)) = Utf8.bom ++ Utf8.encode s := by
  have hbom : String.utf8EncodeChar '\uFEFF' = Utf8.bom := by decide
  rw [Utf8.encode, String.toList_ofList, Utf8.encodeChars_cons, hbom, Utf8.encode]

/-- The parser accepts exactly the encodings of JSON texts of documents within the
bounds, and each of them behind one byte order mark. -/
theorem parseJson_eq_ok_iff {b : Bytes} {v : Json} :
    parseJson b = .ok v ↔ JsonBytes v b ∨ ∃ c, b = Utf8.bom ++ c ∧ JsonBytes v c := by
  constructor
  · intro h
    obtain ⟨t, ht, h⟩ := bind_eq_ok_iff.mp h
    obtain ⟨s, rfl, rfl⟩ := decodeText_eq_some_iff.mp (orFail_eq_ok_iff.mp ht)
    rw [parseText_eq_ok_iff] at h
    by_cases hmark : Utf8.bom <+: Utf8.encode s
    · obtain ⟨cs, hcs⟩ := (Utf8.bom_isPrefix_encode_iff s).mp hmark
      have hstrip : (Utf8.stripBom s).toList = cs := by simp [Utf8.stripBom, hcs]
      have hs := encode_cons_bom (Utf8.stripBom s)
      rw [hstrip, ← hcs, String.ofList_toList] at hs
      exact .inr ⟨_, hs, h⟩
    · rw [(Utf8.stripBom_eq_self_iff s).mpr hmark] at h
      exact .inl h
  · have hparse : ∀ s : String, parseText (Utf8.stripBom s) = .ok v →
        parseJson (Utf8.encode s) = .ok v := by
      intro s hs
      rw [parseJson, decodeText_eq_some_iff.mpr ⟨s, rfl, rfl⟩, orFail, ok_bind, hs]
    rintro (h | ⟨c, rfl, h⟩)
    · have hmark := h.unmarked
      obtain ⟨s, d, rfl, -⟩ := id h
      exact hparse s (by rwa [(Utf8.stripBom_eq_self_iff s).mpr hmark, parseText_eq_ok_iff])
    · obtain ⟨s, d, rfl, -⟩ := id h
      rw [← encode_cons_bom]
      refine hparse _ ?_
      rw [parseText_eq_ok_iff]
      simpa [Utf8.stripBom] using h

end Kdna
