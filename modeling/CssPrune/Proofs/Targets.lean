import CssPrune.Proofs.Runs
import CssPrune.Prune

/-!
# Targets

No two stylesheets of a run are written to the same name (`Session.nodup_targets`), whatever the
suffix is. A suffix goes in front of the last dot of a name, so that what stands behind the dot
tells the names with dots apart. A name without dots could still be given the target of another one
by a suffix that brings a dot along; but then the targets would differ in the number of their dots
(`count_insertSuffix`).
-/

namespace CssPrune

namespace Output

/-- A name without a dot has the suffix at its end. -/
lemma insertSuffix_of_not_mem {name : Text} (h : '.' ∉ name) (suffix : Text) :
    insertSuffix suffix name = name ++ suffix := by
  rw [insertSuffix, if_neg (by simpa using h)]

/-- A suffix stands in front of the last dot. -/
lemma insertSuffix_append {back : Text} (h : '.' ∉ back) (suffix front : Text) :
    insertSuffix suffix (front ++ '.' :: back) = front ++ suffix ++ '.' :: back := by
  have hlength : (front ++ '.' :: back).length - back.length - 1 = front.length := by
    rw [List.length_append, List.length_cons]
    omega
  rw [insertSuffix, if_pos (by simp)]
  simp only [Text.afterLast_append_cons h, hlength, List.take_left]

/-- An inserted suffix adds its own characters. -/
lemma count_insertSuffix (suffix name : Text) (c : Char) :
    (insertSuffix suffix name).count c = name.count c + suffix.count c := by
  by_cases hdot : '.' ∈ name
  · obtain ⟨front, back, rfl, hback⟩ := Text.exists_last hdot
    rw [insertSuffix_append hback]
    simp only [List.count_append]
    omega
  · rw [insertSuffix_of_not_mem hdot, List.count_append]

/-- Names that are alike with a suffix are the same. -/
lemma insertSuffix_injective (suffix : Text) : Function.Injective (insertSuffix suffix) := by
  intro first second h
  have hdots : '.' ∈ first ↔ '.' ∈ second := by
    have hcount := congrArg (List.count '.') h
    rw [count_insertSuffix, count_insertSuffix, Nat.add_right_cancel_iff] at hcount
    rw [← List.count_pos_iff, ← List.count_pos_iff, hcount]
  by_cases hfirst : '.' ∈ first
  · obtain ⟨front, back, rfl, hback⟩ := Text.exists_last hfirst
    obtain ⟨front', back', rfl, hback'⟩ := Text.exists_last (hdots.1 hfirst)
    rw [insertSuffix_append hback, insertSuffix_append hback'] at h
    have hsame : back = back' := by
      have hafter := congrArg (Text.afterLast '.') h
      rwa [Text.afterLast_append_cons hback, Text.afterLast_append_cons hback'] at hafter
    subst hsame
    rw [List.append_left_inj, List.append_left_inj] at h
    rw [h]
  · have hsecond : '.' ∉ second := fun hmem => hfirst (hdots.2 hmem)
    rw [insertSuffix_of_not_mem hfirst, insertSuffix_of_not_mem hsecond] at h
    exact List.append_cancel_right h

/-- Names with the same target are the same. -/
lemma targetOf_injective (suffix? : Option String) : Function.Injective (targetOf suffix?) := by
  cases suffix? with
  | none => exact fun _ _ h => h
  | some suffix =>
    intro first second h
    have hlists := insertSuffix_injective _ (String.ofList_injective h)
    exact String.toList_injective hlists

end Output

/-- Distinct names have distinct targets. -/
lemma Sheets.WellFormed.nodup_targets {sheets : Sheets} (h : sheets.WellFormed)
    (settings : Settings) : ((sheets.outputs settings).map (·.target)).Nodup := by
  have htargets : (sheets.outputs settings).map (·.target) =
      sheets.byName.keys.map (Output.targetOf settings.suffix) := by
    rw [Sheets.outputs, OrderedMap.keys, List.map_map, List.map_map]
    rfl
  rw [htargets]
  exact h.nodup.map (Output.targetOf_injective settings.suffix)

/-- No two stylesheets of a run are written to the same name, whether rules were removed or not. -/
theorem Session.nodup_targets (settings : Settings) (steps : List Step) :
    (((start settings).run steps).outputs.map (·.target)).Nodup := by
  have hsheets := wellFormed_run (wellFormed_start settings) steps
  exact hsheets.nodup_targets _

end CssPrune
