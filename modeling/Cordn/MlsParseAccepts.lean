import Cordn.MlsParseReads

/-!
# What the parser accepts

The walk over the extensions stops at the first last-resort marker. Up to there
the bytes follow the layout; what stands behind the marker in its dictionary and
behind the extension that holds it is never looked at.
-/

set_option autoImplicit false

namespace Cordn.MlsParse
open Reader

abbrev TaggedWord (x : List UInt8) (v : UInt16 × List UInt8) : Prop :=
  ∃ t : Tagged, x = t.encode ∧ v = t.content

def StopsInDictionary (payload rest : List UInt8) : Prop :=
  ∃ (f : Field) (cs : List Tagged) (c : Tagged), payload = f.encode ∧
    f.content = cs.flatMap Tagged.encode ++ (c.encode ++ rest) ∧
    (∀ t ∈ cs, ¬ t.IsMarker) ∧ c.IsMarker

/-- The walk over the extensions stops: it leaves `restOfDictionary` unread in
the dictionary with the marker and `restOfExtensions` behind that extension. -/
def Stops (extensions restOfDictionary restOfExtensions : List UInt8) : Prop :=
  ∃ (es : List Tagged) (e : Tagged),
    extensions = es.flatMap Tagged.encode ++ (e.encode ++ restOfExtensions) ∧
    (∀ t ∈ es, t.WellFormed ∧ ¬ t.Marks) ∧ e.tag = appDataDictionaryExtensionType ∧
    StopsInDictionary e.data.content restOfDictionary

theorem field_unambiguous {f g : Field} {c d : List UInt8} (h : f.encode ++ c = g.encode ++ d) :
    f.encode = g.encode ∧ f.content = g.content ∧ c = d :=
  reads_readVarBytes.unambiguous ⟨f, rfl, rfl⟩ ⟨g, rfl, rfl⟩ h

theorem field_encode_inj {f g : Field} (h : f.encode = g.encode) : f.content = g.content :=
  (field_unambiguous (congrArg (· ++ []) h)).2.1

theorem isMarker_content {c d : Tagged} (h : c.content = d.content) :
    c.IsMarker ↔ d.IsMarker := by
  simp only [Tagged.content, Prod.mk.injEq] at h
  rw [Tagged.IsMarker, Tagged.IsMarker, h.1, h.2]

theorem sequence_unambiguous {bytes : List UInt8} {ts us : List Tagged} (ht : Sequence bytes ts)
    (hu : Sequence bytes us) : ts.map Tagged.content = us.map Tagged.content := by
  have hti := (items_tagged bytes _).mpr ⟨ts, ht, rfl⟩
  have hui := (items_tagged bytes _).mpr ⟨us, hu, rfl⟩
  rw [← List.append_nil bytes] at hui
  obtain ⟨bs, hbs, hnil⟩ := hti.of_append reads_taggedBytes tagged_ne_nil hui
  generalize hz : ([] : List UInt8) = z at hnil
  cases hnil with
  | nil => rw [hbs, List.append_nil]
  | cons x a ys as hx has =>
    exact absurd (List.append_eq_nil_iff.mp hz.symm).1 (tagged_ne_nil x a hx)

theorem sequence_behind {bytes rest : List UInt8} {ts us : List Tagged}
    (ht : bytes = ts.flatMap Tagged.encode ++ rest) (hu : Sequence bytes us) :
    ∃ vs, us.map Tagged.content = ts.map Tagged.content ++ vs.map Tagged.content ∧
      Sequence rest vs := by
  have hti := (items_tagged (ts.flatMap Tagged.encode) _).mpr ⟨ts, rfl, rfl⟩
  have hui := (items_tagged bytes _).mpr ⟨us, hu, rfl⟩
  rw [ht] at hui
  obtain ⟨bs, hbs, hrest⟩ := hti.of_append reads_taggedBytes tagged_ne_nil hui
  obtain ⟨vs, hvs, rfl⟩ := (items_tagged rest bs).mp hrest
  exact ⟨vs, hbs, hvs⟩

theorem component_hit (c : Tagged) :
    (c.content.1 == lastResortKeyPackageComponentId && c.content.2.isEmpty) = true ↔
      c.IsMarker := by
  simp [Tagged.content, Tagged.IsMarker]

theorem isLastResortExtension_iff (payload : List UInt8) (b : Bool) :
    isLastResortExtension payload = .ok b ↔ ∃ f : Field, payload = f.encode ∧
      Scanned TaggedWord (fun c => (.ok (c.1 == lastResortKeyPackageComponentId &&
        c.2.isEmpty) : Except MlsParseError Bool)) f.content b := by
  unfold isLastResortExtension
  constructor
  · intro h
    cases hr : readVarBytes payload 0 with
    | error e => simp [hr] at h
    | ok r =>
      obtain ⟨x, ⟨f, rfl, hf⟩, hd, hj⟩ :=
        (reads_readVarBytes payload 0 (Nat.zero_le _) r.1 r.2).mp hr
      simp only [hr] at h
      split at h
      · simp at h
      · rename_i hstop
        rw [not_not] at hstop
        rw [hstop, List.drop_length, List.append_nil, List.drop_zero] at hd
        rw [hf] at h
        exact ⟨f, hd, (scan_iff reads_taggedBytes tagged_ne_nil _ _ b).mp h⟩
  · rintro ⟨f, rfl, hs⟩
    have hr : readVarBytes f.encode 0 = .ok (f.content, 0+f.encode.length) :=
      reads_readVarBytes.read (Nat.zero_le _) ⟨f, rfl, rfl⟩ (List.append_nil f.encode).symm
    simp only [hr, Nat.zero_add, ne_eq, not_true_eq_false, if_false]
    exact (scan_iff reads_taggedBytes tagged_ne_nil _ _ b).mpr hs

theorem dictionary_without_marker (payload : List UInt8) :
    isLastResortExtension payload = .ok false ↔ ∃ d : Dictionary, payload = d.field.encode ∧
      ∀ c ∈ d.components, ¬ c.IsMarker := by
  rw [isLastResortExtension_iff]
  constructor
  · rintro ⟨f, rfl, hs⟩
    obtain ⟨vs, hi, hall⟩ := scanned_false.mp hs
    obtain ⟨ts, hts, rfl⟩ := (items_tagged _ _).mp hi
    refine ⟨⟨f, ts, hts⟩, rfl, ?_⟩
    intro c hc hm
    have hmiss := hall c.content (List.mem_map_of_mem hc)
    rw [(component_hit c).mpr hm] at hmiss
    simp at hmiss
  · rintro ⟨d, rfl, hall⟩
    refine ⟨d.field, rfl, scanned_false.mpr ⟨_, (items_tagged _ _).mpr
      ⟨d.components, d.complete, rfl⟩, ?_⟩⟩
    intro v hv
    obtain ⟨c, hc, rfl⟩ := List.mem_map.mp hv
    rw [Except.ok.injEq, Bool.eq_false_iff]
    exact fun hm => hall c hc ((component_hit c).mp hm)

theorem dictionary_with_marker (payload : List UInt8) :
    isLastResortExtension payload = .ok true ↔ ∃ rest, StopsInDictionary payload rest := by
  rw [isLastResortExtension_iff]
  constructor
  · rintro ⟨f, rfl, hs⟩
    obtain ⟨x, vs, y, v, rest, hc, hi, hall, ⟨c, rfl, rfl⟩, hhit⟩ := scanned_true.mp hs
    obtain ⟨cs, rfl, rfl⟩ := (items_tagged _ _).mp hi
    refine ⟨rest, f, cs, c, rfl, hc, ?_, (component_hit c).mp (Except.ok.inj hhit)⟩
    intro t ht hm
    have hmiss := hall t.content (List.mem_map_of_mem ht)
    rw [(component_hit t).mpr hm] at hmiss
    simp at hmiss
  · rintro ⟨rest, f, cs, c, rfl, hc, hall, hm⟩
    refine ⟨f, rfl, scanned_true.mpr ⟨_, _, _, _, rest, hc, (items_tagged _ _).mpr
      ⟨cs, rfl, rfl⟩, ?_, ⟨c, rfl, rfl⟩, by rw [(component_hit c).mpr hm]⟩⟩
    intro v hv
    obtain ⟨t, ht, rfl⟩ := List.mem_map.mp hv
    rw [Except.ok.injEq, Bool.eq_false_iff]
    exact fun hh => hall t ht ((component_hit t).mp hh)

def extensionHit (extension : UInt16 × List UInt8) : Except MlsParseError Bool :=
  if extension.1 = appDataDictionaryExtensionType then isLastResortExtension extension.2
  else .ok false

theorem marker_of_same_contents {cs ds : List Tagged}
    (h : cs.map Tagged.content = ds.map Tagged.content) (hc : ∃ c ∈ cs, c.IsMarker) :
    ∃ d ∈ ds, d.IsMarker := by
  obtain ⟨c, hmem, hm⟩ := hc
  obtain ⟨d, hd, he⟩ := List.mem_map.mp (h ▸ List.mem_map_of_mem hmem :
    c.content ∈ ds.map Tagged.content)
  exact ⟨d, hd, (isMarker_content he).mpr hm⟩

theorem marker_of_same_dictionary {d d' : Dictionary} (h : d.field.encode = d'.field.encode)
    (hc : ∃ c ∈ d.components, c.IsMarker) : ∃ c ∈ d'.components, c.IsMarker := by
  have hsame := field_encode_inj h
  have hcontents := sequence_unambiguous d.complete (hsame ▸ d'.complete)
  exact marker_of_same_contents hcontents hc

theorem extension_miss (e : Tagged) :
    extensionHit e.content = .ok false ↔ e.WellFormed ∧ ¬ e.Marks := by
  unfold extensionHit
  by_cases ht : e.tag = appDataDictionaryExtensionType
  · rw [if_pos (show e.content.1 = _ from ht)]
    change isLastResortExtension e.data.content = _ ↔ _
    rw [dictionary_without_marker]
    constructor
    · rintro ⟨d, hd, hall⟩
      refine ⟨fun _ => ⟨d, hd⟩, ?_⟩
      rintro ⟨-, d', hd', hmark⟩
      obtain ⟨c, hc, hm⟩ := marker_of_same_dictionary (hd'.symm.trans hd) hmark
      exact hall c hc hm
    · rintro ⟨hwell, hmark⟩
      obtain ⟨d, hd⟩ := hwell ht
      exact ⟨d, hd, fun c hc hm => hmark ⟨ht, d, hd, c, hc, hm⟩⟩
  · rw [if_neg (show ¬ e.content.1 = _ from ht)]
    exact ⟨fun _ => ⟨fun h => absurd h ht, fun h => ht h.1⟩, fun _ => rfl⟩

theorem extension_hit (e : Tagged) :
    extensionHit e.content = .ok true ↔ e.tag = appDataDictionaryExtensionType ∧
      ∃ rest, StopsInDictionary e.data.content rest := by
  unfold extensionHit
  by_cases ht : e.tag = appDataDictionaryExtensionType
  · rw [if_pos (show e.content.1 = _ from ht)]
    change isLastResortExtension e.data.content = _ ↔ _
    rw [dictionary_with_marker]
    simp [ht]
  · rw [if_neg (show ¬ e.content.1 = _ from ht)]
    simp [ht]

theorem detect_false (extensions : List UInt8) :
    detectLastResort extensions = .ok false ↔
      ∃ ts, Sequence extensions ts ∧ ∀ t ∈ ts, t.WellFormed ∧ ¬ t.Marks := by
  change scan taggedBytes extensionHit extensions = _ ↔ _
  rw [scan_iff reads_taggedBytes tagged_ne_nil, scanned_false]
  constructor
  · rintro ⟨vs, hi, hall⟩
    obtain ⟨ts, hts, rfl⟩ := (items_tagged _ _).mp hi
    exact ⟨ts, hts, fun t ht => (extension_miss t).mp (hall _ (List.mem_map_of_mem ht))⟩
  · rintro ⟨ts, hts, hall⟩
    refine ⟨_, (items_tagged _ _).mpr ⟨ts, hts, rfl⟩, ?_⟩
    intro v hv
    obtain ⟨t, ht, rfl⟩ := List.mem_map.mp hv
    exact (extension_miss t).mpr (hall t ht)

theorem detect_true (extensions : List UInt8) :
    detectLastResort extensions = .ok true ↔ ∃ restOfDictionary restOfExtensions,
      Stops extensions restOfDictionary restOfExtensions := by
  change scan taggedBytes extensionHit extensions = _ ↔ _
  rw [scan_iff reads_taggedBytes tagged_ne_nil, scanned_true]
  constructor
  · rintro ⟨x, vs, y, v, rest, hbytes, hi, hall, ⟨e, rfl, rfl⟩, hhit⟩
    obtain ⟨es, rfl, rfl⟩ := (items_tagged _ _).mp hi
    obtain ⟨ht, restOfDictionary, hstop⟩ := (extension_hit e).mp hhit
    exact ⟨restOfDictionary, rest, es, e, hbytes,
      fun t ht => (extension_miss t).mp (hall _ (List.mem_map_of_mem ht)), ht, hstop⟩
  · rintro ⟨restOfDictionary, rest, es, e, hbytes, hall, ht, hstop⟩
    refine ⟨_, _, _, _, rest, hbytes, (items_tagged _ _).mpr ⟨es, rfl, rfl⟩, ?_, ⟨e, rfl, rfl⟩,
      (extension_hit e).mpr ⟨ht, restOfDictionary, hstop⟩⟩
    intro v hv
    obtain ⟨t, ht, rfl⟩ := List.mem_map.mp hv
    exact (extension_miss t).mpr (hall t ht)

def AcceptsDocumentedLayout (bytes : List UInt8) : Prop :=
  ∀ parsed, parseKeyPackage bytes = .ok parsed → ∃ k : KeyPackage, bytes = k.encode ∧
    parsed.credentialIdentity = k.credentialIdentity ∧ parsed.cipherSuite = k.cipherSuite ∧
      (parsed.isLastResort = true ↔ k.IsLastResort)

/-- Where the walk stops at a marker, the rest of that dictionary is a complete
sequence of components and the rest of the extensions a complete sequence of
well-formed extensions. -/
def UnreadBytesComplete (bytes : List UInt8) : Prop :=
  ∀ (k : RawKeyPackage) (restOfDictionary restOfExtensions : List UInt8), bytes = k.encode →
    Stops k.extensions.content restOfDictionary restOfExtensions →
      (∃ cs, Sequence restOfDictionary cs) ∧
        ∃ es, Sequence restOfExtensions es ∧ ∀ e ∈ es, e.WellFormed

theorem raw_extensions_inj {k l : RawKeyPackage} (h : k.encode = l.encode) :
    k.extensions.content = l.extensions.content := by
  have hu16 : ∀ {v w : UInt16} {c d : List UInt8}, u16Bytes v ++ c = u16Bytes w ++ d → c = d :=
    fun he => (reads_u16.unambiguous rfl rfl he).2.2
  have hleaf : ∀ {m n : LeafNode} {c d : List UInt8}, m.encode ++ c = n.encode ++ d → c = d :=
    fun he => (reads_leafNode.unambiguous ⟨_, rfl, rfl⟩ ⟨_, rfl, rfl⟩ he).2.2
  have hbehind := hleaf (field_unambiguous (hu16 (hu16 h))).2.2
  exact (field_unambiguous hbehind).2.1

theorem stops_complete {extensions restOfDictionary restOfExtensions : List UInt8}
    (h : Stops extensions restOfDictionary restOfExtensions)
    (hd : ∃ cs, Sequence restOfDictionary cs)
    (he : ∃ es, Sequence restOfExtensions es ∧ ∀ e ∈ es, e.WellFormed) :
    ∃ es, Sequence extensions es ∧ (∀ e ∈ es, e.WellFormed) ∧ ∃ e ∈ es, e.Marks := by
  obtain ⟨es, e, hbytes, hall, ht, f, cs, c, hf, hcontent, -, hm⟩ := h
  obtain ⟨more, hmore⟩ := hd
  obtain ⟨others, hothers, hwell⟩ := he
  have hcomplete : Sequence f.content (cs ++ c::more) := by
    rw [Sequence, hcontent, hmore]
    simp
  have hdict : ∃ d : Dictionary, e.data.content = d.field.encode ∧ ∃ c ∈ d.components, c.IsMarker :=
    ⟨⟨f, cs ++ c::more, hcomplete⟩, hf, c, by simp, hm⟩
  refine ⟨es ++ e::others, ?_, ?_, e, by simp, ht, hdict⟩
  · rw [Sequence, hbytes, hothers]
    simp
  · intro t htm
    rcases List.mem_append.mp htm with hin | hin
    · exact (hall t hin).1
    · rcases List.mem_cons.mp hin with rfl | hin
      · obtain ⟨d, hd, -⟩ := hdict
        exact fun _ => ⟨d, hd⟩
      · exact hwell t hin

theorem wellFormed_content {e e' : Tagged} (h : e.content = e'.content) (hw : e.WellFormed) :
    e'.WellFormed := by
  simp only [Tagged.content, Prod.mk.injEq] at h
  intro ht
  rw [← h.2]
  exact hw (h.1.trans ht)

theorem rests_of_complete {extensions restOfDictionary restOfExtensions : List UInt8}
    (h : Stops extensions restOfDictionary restOfExtensions) {all : List Tagged}
    (hall : Sequence extensions all) (hwell : ∀ e ∈ all, e.WellFormed) :
    (∃ cs, Sequence restOfDictionary cs) ∧
      ∃ es, Sequence restOfExtensions es ∧ ∀ e ∈ es, e.WellFormed := by
  obtain ⟨es, e, hbytes, -, ht, f, cs, c, hf, hcontent, -, -⟩ := h
  have hsplit : extensions = (es ++ [e]).flatMap Tagged.encode ++ restOfExtensions := by
    rw [hbytes]
    simp
  obtain ⟨others, hothers, hrest⟩ := sequence_behind hsplit hall
  have hsame : ∀ t : Tagged, t.content ∈ all.map Tagged.content → t.WellFormed := by
    intro t htm
    obtain ⟨t', ht', heq⟩ := List.mem_map.mp htm
    exact wellFormed_content heq (hwell t' ht')
  constructor
  · obtain ⟨d, hd⟩ := hsame e (by rw [hothers]; simp) ht
    have hfield := field_encode_inj (hf.symm.trans hd)
    have hdict : f.content = (cs ++ [c]).flatMap Tagged.encode ++ restOfDictionary := by
      rw [hcontent]
      simp
    obtain ⟨more, -, hmore⟩ := sequence_behind hdict (hfield ▸ d.complete)
    exact ⟨more, hmore⟩
  · refine ⟨others, hrest, fun t htm => hsame t ?_⟩
    rw [hothers]
    exact List.mem_append_right _ (List.mem_map_of_mem htm)

theorem unread_complete_of_layout {bytes : List UInt8} (h : AcceptsDocumentedLayout bytes) :
    UnreadBytesComplete bytes := by
  intro k restOfDictionary restOfExtensions hbytes hstops
  have hdetect := (detect_true _).mpr ⟨_, _, hstops⟩
  have hparse := (parse_iff bytes ⟨k.credentialIdentity, k.cipherSuite, true⟩).mpr
    ⟨k, hbytes, hdetect, rfl, rfl⟩
  obtain ⟨l, hl, -⟩ := h _ hparse
  have hsame := raw_extensions_inj (hbytes.symm.trans hl)
  rw [hsame] at hstops
  exact rests_of_complete hstops l.complete l.wellFormed

/-- The parser accepts only the documented layout exactly where the bytes its
early returns skip are complete. -/
theorem documented_layout_iff (bytes : List UInt8) :
    AcceptsDocumentedLayout bytes ↔ UnreadBytesComplete bytes := by
  refine ⟨unread_complete_of_layout, ?_⟩
  intro h parsed hparse
  obtain ⟨k, hbytes, hdetect, hname, hsuite⟩ := (parse_iff bytes parsed).mp hparse
  cases hflag : parsed.isLastResort with
  | false =>
    rw [hflag] at hdetect
    obtain ⟨es, hes, hall⟩ := (detect_false _).mp hdetect
    refine ⟨⟨k, es, hes, fun e he => (hall e he).1⟩, hbytes, hname, hsuite, ?_⟩
    simp only [Bool.false_eq_true, false_iff]
    rintro ⟨e, he, hm⟩
    exact (hall e he).2 hm
  | true =>
    rw [hflag] at hdetect
    obtain ⟨restOfDictionary, restOfExtensions, hstops⟩ := (detect_true _).mp hdetect
    obtain ⟨hd, he⟩ := h k _ _ hbytes hstops
    obtain ⟨es, hes, hwell, hmarks⟩ := stops_complete hstops hd he
    exact ⟨⟨k, es, hes, hwell⟩, hbytes, hname, hsuite, fun _ => hmarks, fun _ => rfl⟩

/-- Extensions with a byte behind the marker extension that starts no extension. -/
def garbledKeyPackage : RawKeyPackage where
  cipherSuite := 1
  initKey := ⟨.one, [], by decide⟩
  leafNode := {
    hpkePub := ⟨.one, [], by decide⟩
    sigPub := ⟨.one, [], by decide⟩
    credential := ⟨⟨.one, [], by decide⟩, "", rfl⟩
    capabilities := List.replicate 5 ⟨.one, [], by decide⟩
    five := rfl
    lifetime := List.replicate 16 0
    sixteen := rfl
    extensions := ⟨.one, [], by decide⟩
    signature := ⟨.one, [], by decide⟩ }
  extensions := ⟨.one, [0, 6, 4, 3, 0, 4, 0, 255], by decide⟩
  signature := ⟨.one, [], by decide⟩

theorem garbled_key_package_accepted :
    parseKeyPackage garbledKeyPackage.encode = .ok ⟨"", 1, true⟩ ∧
      ¬ AcceptsDocumentedLayout garbledKeyPackage.encode := by
  refine ⟨by decide, ?_⟩
  intro h
  have hstops : Stops garbledKeyPackage.extensions.content [] [255] :=
    ⟨[], ⟨6, ⟨.one, [3, 0, 4, 0], by decide⟩⟩, by decide, by simp, rfl,
      ⟨.one, [0, 4, 0], by decide⟩, [], ⟨4, ⟨.one, [], by decide⟩⟩, by decide, by decide,
      by simp, by decide⟩
  obtain ⟨-, es, hes, -⟩ := unread_complete_of_layout h garbledKeyPackage [] [255] rfl hstops
  cases es with
  | nil => simp [Sequence] at hes
  | cons e es =>
    have hlen := congrArg List.length hes
    simp [Tagged.encode, u16Bytes] at hlen

end Cordn.MlsParse
