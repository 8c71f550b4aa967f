import Kdna.ProtectedRead.Guarantees

/-!
# The invariant of a protected read

What keeps the invariant: the end of the owner, a settlement, a change of the environment, and an
entry whose state its own turn leads to.
-/

namespace Kdna.ProtectedRead

open EventLoop Value Read

abbrev Sight := View (Option Call) State Query Reply Result

variable {k : Route} {s t : State} {h : List Happening} {e : Happening} {d d' : Delivery}

section Histories

theorem mem_append_entry {f : Happening} : f ∈ h ++ [e] ↔ f ∈ h ∨ f = e := by
  rw [List.mem_append, List.mem_singleton]

theorem Returned.append {id : ℕ} (hr : Returned h id) : Returned (h ++ [e]) id := by
  obtain ⟨f, hf, hid, hreturned⟩ := hr
  exact ⟨f, mem_append_entry.mpr (.inl hf), hid, hreturned⟩

/-- What was handed over stays so. -/
theorem Handed.moves (hd : Handed h d) (hm : d.Moves d') : Handed (h ++ [e]) d' := by
  obtain ⟨f, hf, hid, hasked, observed, hlog⟩ := hd
  refine ⟨f, mem_append_entry.mpr (.inl hf), hid, hasked, observed, ?_⟩
  rw [hm.prepared, hm.atMs]
  exact hlog

theorem Holds.takes {f : Happening} (hf : Holds f) : Takes f := ⟨hf.1, .inl hf.2⟩

end Histories

section Owner

@[simp] theorem closeOwner_ownerActive (d : Delivery) : (closeOwner d).ownerActive = false := rfl

@[simp] theorem closeOwner_lifecycle (d : Delivery) : (closeOwner d).lifecycle = .closed := rfl

@[simp] theorem closeOwner_disclosure (d : Delivery) : (closeOwner d).disclosure = d.disclosure := rfl

@[simp] theorem closeOwner_pending (d : Delivery) : (closeOwner d).pending = d.pending := rfl

theorem Lifecycle.rank_le_closed (l : Lifecycle) : l.rank ≤ Lifecycle.closed.rank := by
  cases l <;> decide

/-- A lifecycle behind `closed` is `closed`. -/
theorem Lifecycle.closed_of_le {l l' : Lifecycle} (hl : l = .closed) (hle : l.rank ≤ l'.rank) :
    l' = .closed := by
  subst hl
  cases l' with
  | closed => rfl
  | available => exact absurd hle (by decide)
  | reserved => exact absurd hle (by decide)

/-- A lifecycle that is no longer `available` stays so. -/
theorem Lifecycle.taken_of_le {l l' : Lifecycle} (hl : l ≠ .available) (hle : l.rank ≤ l'.rank) :
    l' ≠ .available := by
  rintro rfl
  cases l with
  | available => exact hl rfl
  | reserved => exact absurd hle (by decide)
  | closed => exact absurd hle (by decide)

/-- The end of an owner that has ended. -/
theorem closeOwner_of_closed (howner : d.ownerActive = false) (hclosed : d.lifecycle = .closed) :
    closeOwner d = d := by
  obtain ⟨p, active, lifecycle, pending, failed, disclosure⟩ := d
  obtain rfl : active = false := howner
  obtain rfl : lifecycle = .closed := hclosed
  simp [closeOwner]

theorem closeOwner_moves (d : Delivery) : d.Moves (closeOwner d) where
  prepared := rfl
  atMs := rfl
  owner _ := rfl
  lifecycle := Lifecycle.rank_le_closed _
  failed hf := by simp [closeOwner, hf]
  invoked hi := hi
  settled howner hclosed _ := closeOwner_of_closed howner hclosed

theorem release_of_inactive (hd : d.ownerActive = false) : release d = d := by
  rw [release, hd, if_neg Bool.false_ne_true]

theorem release_moves (d : Delivery) : d.Moves (release d) := by
  rw [release]
  split
  · exact closeOwner_moves d
  · exact .refl d

/-- The owner may end at any time. -/
theorem Delivery.Fits.close (hd : d.Fits h) : (closeOwner d).Fits h where
  handed := hd.handed
  active hactive := absurd hactive Bool.false_ne_true
  shut _ := rfl
  invoked := hd.invoked
  spent _ := rfl
  held _ := by simp
  taken hactive := absurd hactive Bool.false_ne_true
  running := hd.running

theorem Delivery.Fits.release (hd : d.Fits h) : (release d).Fits h := by
  rw [ProtectedRead.release]
  split
  · exact hd.close
  · exact hd

end Owner

section Entries

/-- A delivery that its own turn leads to fits behind the entry of the turn. -/
theorem Delivery.Fits.next (hd : d.Fits h) (hm : d.Moves d')
    (hactive : d'.ownerActive = true → Passes 0 e)
    (hshut : d'.ownerActive = false → d'.lifecycle = .closed)
    (hinvoked : d'.disclosure.externalCommit ≠ .notInvoked ↔
      d.disclosure.externalCommit ≠ .notInvoked ∨ e.outcome = .asked .sink)
    (hspent : d'.disclosure.externalCommit ≠ .notInvoked → d'.lifecycle = .closed)
    (hheld : Holds e → d'.lifecycle ≠ .available)
    (htaken : d'.ownerActive = true → d'.lifecycle ≠ .available → d.lifecycle ≠ .available ∨ Takes e)
    (hrunning : ∀ f ∈ h ++ [e], Holds f → Returned (h ++ [e]) f.id ∨ d'.pending = true) :
    d'.Fits (h ++ [e]) := by
  have howner (hactive' : d'.ownerActive = true) : d.ownerActive = true := by
    by_contra hne
    rw [hm.owner (Bool.eq_false_iff.mpr hne)] at hactive'
    cases hactive'
  refine ⟨hd.handed.moves hm, fun ha => (waits_append (hactive ha)).mpr (hd.active (howner ha)),
    hshut, ?_, hspent, ?_, fun ha hne => ?_, hrunning⟩
  · rw [everAsked_append, ← hd.invoked]
    exact hinvoked
  · rintro ⟨f, hf, hholds⟩
    rcases mem_append_entry.mp hf with hf | rfl
    · exact Lifecycle.taken_of_le (hd.held ⟨f, hf, hholds⟩) hm.lifecycle
    · exact hheld hholds
  · rcases htaken ha hne with hne | htakes
    · obtain ⟨f, hf, htakes⟩ := hd.taken (howner ha) hne
      exact ⟨f, mem_append_entry.mpr (.inl hf), htakes⟩
    · exact ⟨e, mem_append_entry.mpr (.inr rfl), htakes⟩

/-- The last clause of the invariant behind one more entry. -/
theorem last_append (hok : EntryOk k h e) (pre : List Happening) (e' : Happening)
    (heq : h ++ [e] = pre ++ [e']) : EntryOk k pre e' := by
  obtain ⟨rfl, hlast⟩ := List.append_inj' heq rfl
  exact (List.singleton_inj.mp hlast) ▸ hok

/-- One more entry. -/
theorem Inv.push (hinv : Inv k s h)
    (hkind : (∀ a, e.outcome ≠ .settled a) → (e.id = 0 ↔ e.isCommit = false))
    (hmine : e.outcome = .asked .deliver → e.id = 0)
    (hsink : e.outcome = .asked .sink → e.isCommit = true)
    (hmade : t.delivery.isSome = true ↔ EverAsked (h ++ [e]) .deliver)
    (hheld : Holds e → t.delivery.isSome = true)
    (hsingle : Holds e → ∀ f ∈ h, Holds f → f.id = e.id)
    (hfits : ∀ d, t.delivery = some d → d.Fits (h ++ [e]))
    (hopened : Waits 0 .deliver (h ++ [e]) → t.disposed = false →
      ∃ d, t.delivery = some d ∧ d.ownerActive = true)
    (hregistered : t.registered = true → Registered t (h ++ [e])) (hok : EntryOk k h e) :
    Inv k t (h ++ [e]) := by
  have hstay (hs : s.delivery.isSome = true) : t.delivery.isSome = true :=
    hmade.mpr (everAsked_append.mpr (.inl (hinv.made.mp hs)))
  refine ⟨fun f hf => ?_, fun f hf => ?_, fun f hf => ?_, hmade, fun f hf hholds => ?_,
    fun f hf f' hf' hh hh' => ?_, hfits, hopened, hregistered, last_append hok⟩
  · rcases mem_append_entry.mp hf with hf | rfl
    · exact hinv.kind f hf
    · exact hkind
  · rcases mem_append_entry.mp hf with hf | rfl
    · exact hinv.mine f hf
    · exact hmine
  · rcases mem_append_entry.mp hf with hf | rfl
    · exact hinv.sinks f hf
    · exact hsink
  · rcases mem_append_entry.mp hf with hf | rfl
    · exact hstay (hinv.held f hf hholds)
    · exact hheld hholds
  · rcases mem_append_entry.mp hf with hmem | heq
    · rcases mem_append_entry.mp hf' with hmem' | heq'
      · exact hinv.single f hmem f' hmem' hh hh'
      · exact heq' ▸ hsingle (heq' ▸ hh') f hmem hh
    · rcases mem_append_entry.mp hf' with hmem' | heq'
      · exact heq ▸ (hsingle (heq ▸ hh) f' hmem' hh').symm
      · rw [heq, heq']

/-- The registration of a state whose delivery stays behind one more entry. -/
theorem Registered.append (hr : Registered s h) (ht : t.delivery = s.delivery) :
    Registered t (h ++ [e]) := by
  obtain ⟨f, hf, hreturned⟩ := hr.returned
  obtain ⟨g, hg, htakenUp⟩ := hr.takenUp
  exact ⟨⟨f, mem_append_entry.mpr (.inl hf), hreturned⟩, ⟨g, mem_append_entry.mpr (.inl hg), htakenUp⟩,
    ht ▸ hr.delivery⟩

/-- An entry that is quiet: it neither hands over nor invokes the sink. -/
structure Quiet (e : Happening) : Prop where
  deliver : e.outcome ≠ .asked .deliver
  sink : e.outcome ≠ .asked .sink

theorem Quiet.deliver_iff (hq : Quiet e) :
    EverAsked (h ++ [e]) .deliver ↔ EverAsked h .deliver := by
  rw [everAsked_append, or_iff_left hq.deliver]

/-- A settlement. -/
theorem Inv.settled (hinv : Inv k s h) (he : ∃ a, e.outcome = .settled a) :
    Inv k s (h ++ [e]) := by
  obtain ⟨a, ha⟩ := he
  have hasked (q : Query) : e.outcome ≠ .asked q := by simp [ha]
  have hpasses : Passes 0 e := fun _ => ⟨a, ha⟩
  have hholds : ¬ Holds e := fun ⟨_, q, hq⟩ => hasked q hq
  have hquiet : Quiet e := ⟨hasked _, hasked _⟩
  refine hinv.push (fun hne => absurd ha (hne a)) (fun hd => absurd hd (hasked _))
    (fun hs => absurd hs (hasked _)) ?_ (fun hh => absurd hh hholds) (fun hh => absurd hh hholds) (fun d hd => ?_) ?_
    (fun hr => (hinv.registered hr).append rfl) ?_
  · rw [hquiet.deliver_iff]
    exact hinv.made
  · have hfits := hinv.fits d hd
    refine hfits.next (.refl d) (fun _ => hpasses) hfits.shut (by simp [hasked]) hfits.spent
      (fun hh => absurd hh hholds) (fun _ hne => .inl hne) fun f hf hh => ?_
    rcases mem_append_entry.mp hf with hf | rfl
    · exact (hfits.running f hf hh).imp_left Returned.append
    · exact absurd hh hholds
  · rw [waits_append hpasses]
    exact hinv.opened
  · simp [EntryOk, ha]

theorem lawful_rules (k : Route) : Lawful (rules k) where
  refl := State.Moves.refl
  trans := State.Moves.trans
  turn_refl := State.Moves.refl
  turn_trans := State.Moves.trans
  always_of_turn _ _ h := h
  nested_refl _ := trivial
  nested_trans _ _ _ _ _ := trivial
  settled _ _ _ _ _ a hinv := hinv.settled ⟨a, rfl⟩

end Entries

section Environment

/-- The invariant reads the delivery, the registration and whether the operation is disposed. -/
theorem Inv.congr (hinv : Inv k s h) (hdelivery : t.delivery = s.delivery)
    (hdisposed : t.disposed = s.disposed) (hregistered : t.registered = s.registered) :
    Inv k t h := by
  refine ⟨hinv.kind, hinv.mine, hinv.sinks, hdelivery ▸ hinv.made, hdelivery ▸ hinv.held,
    hinv.single, hdelivery ▸ hinv.fits, hdelivery ▸ hdisposed ▸ hinv.opened, fun hr => ?_,
    hinv.last⟩
  obtain ⟨hread, htakenUp, hd⟩ := hinv.registered (hregistered ▸ hr)
  exact ⟨hread, htakenUp, hdelivery ▸ hd⟩

/-- The operation is disposed. -/
theorem Inv.dispose (hinv : Inv k s h) : Inv k { s.deliver release with disposed := true } h := by
  have hsome : (s.deliver release).delivery.isSome = s.delivery.isSome := Option.isSome_map
  refine ⟨hinv.kind, hinv.mine, hinv.sinks, hsome ▸ hinv.made, hsome ▸ hinv.held, hinv.single,
    fun d hd => ?_, fun _ hdisposed => absurd hdisposed.symm Bool.false_ne_true, fun hr => ?_,
    hinv.last⟩
  · obtain ⟨d₀, hd₀, rfl⟩ := Option.map_eq_some_iff.mp hd
    exact (hinv.fits d₀ hd₀).release
  · obtain ⟨hread, htakenUp, d, hd, howner, hrest⟩ := hinv.registered hr
    refine ⟨hread, htakenUp, d, ?_, howner, hrest⟩
    rw [← release_of_inactive howner]
    exact Option.map_eq_some_iff.mpr ⟨d, hd, rfl⟩

theorem State.Moves.dispose (s : State) : s.Moves { s.deliver release with disposed := true } :=
  ⟨fun d hd => ⟨release d, Option.map_eq_some_iff.mpr ⟨d, hd, rfl⟩, release_moves d⟩, id⟩

theorem State.Moves.same (hdelivery : t.delivery = s.delivery)
    (hregistered : t.registered = s.registered) : s.Moves t :=
  ⟨fun d hd => ⟨d, hdelivery.trans hd, .refl d⟩, fun hr => hregistered.trans hr⟩

/-- A step of the environment keeps the invariant. -/
theorem Inv.change (hinv : Inv k s h) (c : Change) :
    Inv k (change k c s) h ∧ s.Moves (change k c s) := by
  cases c with
  | denials revocations => exact ⟨hinv.congr rfl rfl rfl, .same rfl rfl⟩
  | fold folding => exact ⟨hinv.congr rfl rfl rfl, .same rfl rfl⟩
  | dispose =>
    rw [ProtectedRead.change]
    split
    · exact ⟨hinv.dispose, .dispose s⟩
    · exact ⟨hinv, .refl s⟩

end Environment

end Kdna.ProtectedRead
