import Kdna.Json.Charge

/-!
# Canonical JSON determines the value

Two values with one canonical text are equal up to the order of members and the sign
of zero.
-/

namespace Kdna

/-- A character sequence is the text of at most one document. -/
theorem JsonText.unique {levels : ℕ} {d e : Json} {c : List Char} (hd : d.Strict levels)
    (he : e.Strict levels) (hdk : d.DistinctKeys) (hek : e.DistinctKeys) (h : JsonText d c)
    (h' : JsonText e c) : d.enumerated = e.enumerated := by
  have hends : Ends [] := fun _ h => nomatch h
  have hspace : Space [] := List.forall_mem_nil _
  have hparse := parseValue_complete hd hdk [] c [] hspace h hends
  rw [parseValue_complete he hek [] c [] hspace h' hends] at hparse
  exact (congrArg Prod.fst (Except.ok.inj hparse)).symm

/-- Equal canonical texts come from values that are equal up to the order of members and
the sign of zero. -/
theorem canonicalText_injective {levels : ℕ} {v w : Json} (hv : v.Strict levels)
    (hw : w.Strict levels) (hvk : v.DistinctKeys) (hwk : w.DistinctKeys)
    (h : canonicalText v = canonicalText w) :
    Value.DeepEqual (v.mapNum Binary64.unsignedZero) (w.mapNum Binary64.unsignedZero) := by
  have htext := jsonText_stringify v.sorted
  have htext' := jsonText_stringify w.sorted
  rw [← canonicalText_eq] at htext htext'
  rw [← h] at htext'
  have hvk' := Value.distinctKeys_mapNum Binary64.unsignedZero (Value.distinctKeys_sorted hvk)
  have hwk' := Value.distinctKeys_mapNum Binary64.unsignedZero (Value.distinctKeys_sorted hwk)
  have heq := JsonText.unique (Value.strict_mapNum _ (Value.strict_sorted hv))
    (Value.strict_mapNum _ (Value.strict_sorted hw)) hvk' hwk' htext htext'
  have hsorted := congrArg Value.sorted heq
  rw [Value.sorted_enumerated hvk', Value.sorted_enumerated hwk', ← Value.sorted_mapNum,
    ← Value.sorted_mapNum, Value.sorted_sorted, Value.sorted_sorted] at hsorted
  exact hsorted

end Kdna
