import Cordn.MlsParseAccepts

/-!
# The parser undoes the layout

Every key package of the documented layout is parsed to its own identity, its
cipher suite and its last-resort flag, whichever length prefixes it is written
with and wherever its markers stand.
-/

set_option autoImplicit false

namespace Cordn.MlsParse

theorem first_such {α : Type} (P : α → Prop) {l : List α} (h : ∃ a ∈ l, P a) :
    ∃ as a bs, l = as ++ a::bs ∧ (∀ b ∈ as, ¬ P b) ∧ P a := by
  induction l with
  | nil => simp at h
  | cons x l ih =>
    by_cases hx : P x
    · exact ⟨[], x, l, rfl, by simp, hx⟩
    · have htail : ∃ a ∈ l, P a := by simpa [hx] using h
      obtain ⟨as, a, bs, rfl, hall, ha⟩ := ih htail
      exact ⟨x::as, a, bs, rfl, by simpa [hx] using hall, ha⟩

/-- The walk over a dictionary with a marker stops at its first one. -/
theorem stopsInDictionary_of_marker (d : Dictionary) (h : ∃ c ∈ d.components, c.IsMarker) :
    ∃ rest, StopsInDictionary d.field.encode rest := by
  obtain ⟨cs, c, more, hcs, hall, hc⟩ := first_such Tagged.IsMarker h
  have hbytes : d.field.content =
      cs.flatMap Tagged.encode ++ (c.encode ++ more.flatMap Tagged.encode) := by
    rw [d.complete, hcs]
    simp
  exact ⟨more.flatMap Tagged.encode, d.field, cs, c, rfl, hbytes, hall, hc⟩

theorem stops_of_marks {extensions : List UInt8} {es : List Tagged}
    (hes : Sequence extensions es) (hwell : ∀ e ∈ es, e.WellFormed) (h : ∃ e ∈ es, e.Marks) :
    ∃ restOfDictionary restOfExtensions, Stops extensions restOfDictionary restOfExtensions := by
  obtain ⟨before, e, behind, rfl, hall, ht, d, hd, hmarker⟩ := first_such Tagged.Marks h
  obtain ⟨rest, hrest⟩ := stopsInDictionary_of_marker d hmarker
  have hbytes : extensions =
      before.flatMap Tagged.encode ++ (e.encode ++ behind.flatMap Tagged.encode) := by
    rw [hes]
    simp
  have hbefore : ∀ t ∈ before, t.WellFormed ∧ ¬ t.Marks := by
    intro t htb
    exact ⟨hwell t (List.mem_append_left _ htb), hall t htb⟩
  exact ⟨rest, behind.flatMap Tagged.encode, before, e, hbytes, hbefore, ht, hd ▸ hrest⟩

theorem detect_encoded (k : KeyPackage) :
    ∃ flag, detectLastResort k.extensions.content = .ok flag ∧
      (flag = true ↔ k.IsLastResort) := by
  by_cases h : k.IsLastResort
  · have hstops := stops_of_marks k.complete k.wellFormed h
    exact ⟨true, (detect_true _).mpr hstops, by simp [h]⟩
  · have hmiss : ∀ e ∈ k.extensionList, e.WellFormed ∧ ¬ e.Marks := by
      intro e he
      exact ⟨k.wellFormed e he, fun hm => h ⟨e, he, hm⟩⟩
    exact ⟨false, (detect_false _).mpr ⟨k.extensionList, k.complete, hmiss⟩, by simp [h]⟩

theorem parse_encode (k : KeyPackage) :
    ∃ parsed, parseKeyPackage k.encode = .ok parsed ∧
      parsed.credentialIdentity = k.credentialIdentity ∧ parsed.cipherSuite = k.cipherSuite ∧
      (parsed.isLastResort = true ↔ k.IsLastResort) := by
  obtain ⟨flag, hdetect, hflag⟩ := detect_encoded k
  have hparse := (parse_iff k.encode ⟨k.credentialIdentity, k.cipherSuite, flag⟩).mpr
    ⟨k.toRawKeyPackage, rfl, hdetect, rfl, rfl⟩
  exact ⟨_, hparse, rfl, rfl, hflag⟩

end Cordn.MlsParse
