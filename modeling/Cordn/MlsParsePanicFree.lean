import Cordn.MlsParseChecked
import Mathlib.Tactic.Ring

/-!
# The parser neither panics nor hangs

On slices that Rust can have, every sum stays within `usize`, every index and
slice within its buffer, and a round of a walk takes at least three bytes, so
that the walker ends with what the parser computes.
-/

set_option autoImplicit false

namespace Cordn.MlsParse.Checked
open Reader Traced TracedReader

def isizeMax (w : ℕ) : ℕ := 2^(w-1)-1

section

variable {w : ℕ}

theorem settles_add {left right : ℕ} (h : left+right < 2^w) :
    Settles (Access.Safe w) (add w left right) (.ok (left+right)) := by
  have hsafe : Access.Safe w (.add left right) := h
  rw [add, if_pos h]
  exact settles_perform hsafe _

theorem settles_shiftLeft {value amount : ℕ} (hamount : amount < w)
    (h : value*2^amount < 2^w) :
    Settles (Access.Safe w) (shiftLeft w value amount) (.ok (value <<< amount)) := by
  have hsafe : Access.Safe w (.shiftLeft value amount) := ⟨hamount, h⟩
  rw [shiftLeft, if_pos hamount, Nat.shiftLeft_eq, Nat.mod_eq_of_lt h]
  exact settles_perform hsafe _

theorem settles_index {buf : List UInt8} {i : ℕ} {v : UInt8} (h : buf[i]? = some v) :
    Settles (Access.Safe w) (index buf i) (.ok v) := by
  have hsafe : Access.Safe w (.index buf.length i) := (List.getElem?_eq_some_iff.mp h).1
  rw [index, h]
  exact settles_perform hsafe v

theorem settles_slice {buf : List UInt8} {start stop : ℕ} (h : start ≤ stop)
    (hstop : stop ≤ buf.length) : Settles (Access.Safe w) (slice buf start stop)
      (.ok ((buf.drop start).take (stop-start))) := by
  have hsafe : Access.Safe w (.slice buf.length start stop) := ⟨h, hstop⟩
  rw [slice, if_pos ⟨h, hstop⟩]
  exact settles_perform hsafe _

theorem settles_offset {size i : ℕ} (h : i ≤ size) :
    Settles (Access.Safe w) (note (.offset size i) : Exec Unit) (.ok ()) := by
  have hsafe : Access.Safe w (.offset size i) := h
  exact settles_note hsafe

theorem settles_okOrEof {α : Type} (o : Option α) :
    Settles (Access.Safe w) (okOrEof o)
      (match o with
        | none => .error .unexpectedEof
        | some a => .ok a) := by
  cases o with
  | none => exact settles_fail _
  | some a => exact settles_value a

theorem settles_length {n : ℕ} (h : n < 2^30) :
    Settles (Access.Safe w) (note (.length n) : Exec Unit) (.ok ()) := by
  have hsafe : Access.Safe w (.length n) := h
  exact settles_note hsafe

theorem settles_again {i next : ℕ} (h : i+3 ≤ next) :
    Settles (Access.Safe w) (note (.again i next) : Exec Unit) (.ok ()) := by
  have hsafe : Access.Safe w (.again i next) := h
  exact settles_note hsafe

theorem room (hw : w = 32 ∨ w = 64) : isizeMax w + 2^30 < 2^w := by
  rcases hw with rfl | rfl <;> decide

theorem wide (hw : w = 32 ∨ w = 64) : 30 < w := by
  omega

variable (hw : w = 32 ∨ w = 64)

include hw

theorem follows_u8 : Follows (Access.Safe w) (isizeMax w) (u8 w) MlsParse.u8 := by
  intro buf i hbuf hi
  have hroom := room hw
  have hget := settles_okOrEof (w := w) buf[i]?
  unfold u8 MlsParse.u8
  cases hb : buf[i]? with
  | none =>
    rw [hb] at hget
    exact hget.error _
  | some v =>
    rw [hb] at hget
    have hlt := (List.getElem?_eq_some_iff.mp hb).1
    exact hget.ok ((settles_add (by omega)).ok ((settles_offset hlt).ok (settles_value _)))

theorem follows_skip (n : ℕ) (hn : n < 2^30) :
    Follows (Access.Safe w) (isizeMax w) (skip w n) (MlsParse.skip n) := by
  intro buf i hbuf hi
  have hroom := room hw
  unfold skip MlsParse.skip
  refine (settles_add (by omega)).ok ?_
  by_cases hcut : buf.length < i+n
  · rw [if_pos hcut, if_pos hcut]
    exact settles_fail _
  · rw [if_neg hcut, if_neg hcut]
    exact (settles_add (by omega)).ok ((settles_offset (Nat.not_lt.mp hcut)).ok (settles_value _))

theorem follows_u16 : Follows (Access.Safe w) (isizeMax w) (u16 w) MlsParse.u16 := by
  intro buf i hbuf hi
  have hroom := room hw
  unfold u16 MlsParse.u16
  refine (settles_add (by omega)).ok ?_
  have hget := settles_okOrEof (w := w) (getRange buf i (i+2))
  by_cases hstop : i+2 ≤ buf.length
  · have hhigh : buf[i]? = some buf[i] := List.getElem?_eq_getElem (by omega)
    have hlow : buf[i+1]? = some buf[i+1] := List.getElem?_eq_getElem (by omega)
    have hrange : getRange buf i (i+2) = some [buf[i], buf[i+1]] := by
      rw [getRange, if_pos ⟨by omega, hstop⟩, Nat.add_sub_cancel_left,
        List.drop_eq_getElem_cons (by omega), List.drop_eq_getElem_cons (by omega)]
      rfl
    rw [hrange] at hget ⊢
    rw [hhigh, hlow]
    exact hget.ok ((settles_add (by omega)).ok ((settles_offset hstop).ok
      ((settles_index rfl).ok ((settles_index rfl).ok (settles_value _)))))
  · have hlow : buf[i+1]? = none := List.getElem?_eq_none (by omega)
    have hrange : getRange buf i (i+2) = none := if_neg (fun h => hstop h.2)
    rw [hrange] at hget ⊢
    rw [hlow]
    cases buf[i]? <;> exact hget.error _

theorem settles_readLength (buf : List UInt8) (offset : ℕ) (hbuf : buf.length ≤ isizeMax w)
    (ks : List ℕ) (hks : ∀ k ∈ ks, offset+k < buf.length) (length : ℕ)
    (hlength : (length+1)*256^ks.length ≤ 2^30) :
    let total := ks.foldl
      (fun length k => length <<< 8 ||| (buf.getD (offset+k) 0).toNat) length
    Settles (Access.Safe w) (readLength w buf offset ks length) (.ok total) ∧ total < 2^30 := by
  have hroom := room hw
  induction ks generalizing length with
  | nil =>
    simp only [List.length_nil, pow_zero, mul_one] at hlength
    exact ⟨settles_value length, hlength⟩
  | cons k ks ih =>
    have hk := hks k (by simp)
    have hbyte : buf[offset+k]? = some (buf.getD (offset+k) 0) := by
      rw [List.getD_eq_getElem?_getD, List.getElem?_eq_getElem hk, Option.getD_some]
    have hlt := toNat_lt (buf.getD (offset+k) 0)
    have hpow : 1 ≤ 256^ks.length := Nat.one_le_pow _ _ (by decide)
    have hnext : (length <<< 8 ||| (buf.getD (offset+k) 0).toNat)+1 ≤ (length+1)*256 := by
      rw [shift_byte]
      omega
    have hrest := ih (fun k hk => hks k (List.mem_cons_of_mem _ hk)) _ (calc
      _ ≤ (length+1)*256*256^ks.length := Nat.mul_le_mul_right _ hnext
      _ = (length+1)*256^(ks.length+1) := by ring
      _ ≤ 2^30 := hlength)
    have hshift : length*2^8 < 2^w := by
      have hall : (length+1)*256*1 ≤ (length+1)*256*256^ks.length :=
        Nat.mul_le_mul_left _ hpow
      have hsame : (length+1)*256*256^ks.length = (length+1)*256^(ks.length+1) := by ring
      rw [List.length_cons] at hlength
      omega
    refine ⟨?_, hrest.2⟩
    exact (settles_shiftLeft (by have := wide hw; omega) hshift).ok ((settles_add (by omega)).ok
      ((settles_index hbyte).ok hrest.1))

/-- The lower bits of the first byte and three bytes more make thirty bits. -/
theorem settles_prefix (buf : List UInt8) (offset : ℕ) (hbuf : buf.length ≤ isizeMax w)
    (first : UInt8) {size : ℕ} (hsize : size ≤ 4) (hinside : offset+size ≤ buf.length) :
    let total := (List.range' 1 (size-1)).foldl
      (fun length k => length <<< 8 ||| (buf.getD (offset+k) 0).toNat) (first &&& 0x3f).toNat
    Settles (Access.Safe w)
      (readLength w buf offset (List.range' 1 (size-1)) (first &&& 0x3f).toNat) (.ok total) ∧
        total < 2^30 := by
  apply settles_readLength hw buf offset hbuf
  · intro k hk
    have hk' := List.mem_range'_1.mp hk
    omega
  · have hlow : (first &&& 0x3f).toNat < 64 := by
      rw [low_bits]
      omega
    calc ((first &&& 0x3f).toNat+1)*256^(List.range' 1 (size-1)).length
      _ ≤ 64*256^(size-1) := Nat.mul_le_mul hlow (by rw [List.length_range'])
      _ ≤ 64*256^3 := Nat.mul_le_mul_left _ (Nat.pow_le_pow_right (by decide) (by omega))
      _ = 2^30 := by decide

theorem follows_readVarBytes :
    Follows (Access.Safe w) (isizeMax w) (readVarBytes w) MlsParse.readVarBytes := by
  intro buf offset hbuf hoffset
  have hroom := room hw
  have hwide := wide hw
  have hget := settles_okOrEof (w := w) buf[offset]?
  unfold readVarBytes
  refine (settles_offset hoffset).ok ?_
  cases hfirst : buf[offset]? with
  | none =>
    rw [hfirst] at hget
    simp only [MlsParse.readVarBytes, hfirst]
    exact hget.error _
  | some first =>
    rw [hfirst] at hget
    refine hget.ok ?_
    dsimp only
    by_cases hlead : first >>> 6 = 0b11
    · simp only [MlsParse.readVarBytes, hfirst, hlead, if_true]
      exact settles_fail _
    · have hthree := supported_lead first hlead
      have hamount : (first >>> 6).toNat < 3 := by rwa [lead_toNat]
      have hsize : 1*2^(first >>> 6).toNat ≤ 4 := by
        rw [one_mul]
        exact Nat.pow_le_pow_right (by decide) (Nat.le_of_lt_succ hamount)
      rw [if_neg hlead]
      refine (settles_shiftLeft (by omega) (by omega)).ok ?_
      have hfield : 1 <<< (first >>> 6).toNat ≤ 4 := by rwa [Nat.shiftLeft_eq]
      simp only [MlsParse.readVarBytes, hfirst, hlead, if_false]
      generalize hm : 1 <<< (first >>> 6).toNat = m at hfield ⊢
      refine (settles_add (by omega)).ok ?_
      by_cases hcut : buf.length < offset+m
      · rw [if_pos hcut, if_pos hcut]
        exact settles_fail _
      · obtain ⟨hlength, hsmall⟩ :=
          settles_prefix hw buf offset hbuf first hfield (Nat.not_lt.mp hcut)
        rw [if_neg hcut, if_neg hcut]
        refine hlength.ok ?_
        generalize (List.range' 1 (m-1)).foldl (fun length k =>
          length <<< 8 ||| (buf.getD (offset+k) 0).toNat) (first &&& 0x3f).toNat = length
          at hsmall ⊢
        refine (settles_length hsmall).ok ((settles_add (by omega)).ok
          ((settles_add (by omega)).ok ?_))
        by_cases hend : buf.length < offset+m+length
        · rw [if_pos hend, if_pos hend]
          exact settles_fail _
        · have hdata := settles_slice (w := w) (Nat.le_add_right (offset+m) length)
            (Nat.not_lt.mp hend)
          rw [Nat.add_sub_cancel_left] at hdata
          rw [if_neg hend, if_neg hend]
          exact hdata.ok ((settles_offset (Nat.not_lt.mp hend)).ok (settles_value _))

theorem follows_readTagged :
    Follows (Access.Safe w) (isizeMax w) (readTagged w) taggedBytes := by
  intro buf i hbuf hi
  have hroom := room hw
  have hget := settles_okOrEof (w := w) buf[i]?
  have hread : taggedBytes buf i = Reader.andThen MlsParse.u16 (fun tag =>
    Reader.andThen MlsParse.readVarBytes (fun data => Reader.value (tag, data))) buf i := rfl
  rw [hread, Reader.andThen, MlsParse.u16]
  unfold readTagged
  cases hb : buf[i]? with
  | none =>
    rw [hb] at hget
    exact hget.error _
  | some high =>
    have hlt := (List.getElem?_eq_some_iff.mp hb).1
    have hget' := settles_okOrEof (w := w) buf[i+1]?
    rw [hb] at hget
    refine hget.ok ((settles_add (by omega)).ok ?_)
    cases hc : buf[i+1]? with
    | none =>
      rw [hc] at hget'
      exact hget'.error _
    | some low =>
      have hlt' := (List.getElem?_eq_some_iff.mp hc).1
      have hfield := follows_readVarBytes hw buf (i+2) hbuf hlt'
      rw [hc] at hget'
      refine hget'.ok ((settles_add (by omega)).ok ?_)
      dsimp only
      rw [Reader.andThen]
      cases hr : MlsParse.readVarBytes buf (i+2) with
      | error e =>
        rw [hr] at hfield
        exact hfield.error _
      | ok read =>
        rw [hr] at hfield
        exact hfield.ok (settles_value _)

omit hw in
theorem tagged_progress {buf : List UInt8} {i j : ℕ} (hi : i ≤ buf.length)
    {tagged : UInt16 × List UInt8} (h : taggedBytes buf i = .ok (tagged, j)) :
    i+3 ≤ j ∧ j ≤ buf.length ∧ tagged.2.length ≤ buf.length := by
  obtain ⟨x, ⟨t, rfl, rfl⟩, hd, rfl⟩ := (reads_taggedBytes buf i hi tagged j).mp h
  have hroom := (drop_split hi hd).1
  have hprefix : 1 ≤ (lengthPrefix t.data.size t.data.content.length).length := by
    rw [lengthPrefix_length]
    cases t.data.size <;> decide
  have hlen : t.encode.length =
      2+(lengthPrefix t.data.size t.data.content.length).length+t.data.content.length := by
    simp [Tagged.encode, Field.encode, u16Bytes]
    omega
  refine ⟨by omega, hroom, ?_⟩
  simp only [Tagged.content]
  omega

theorem settles_walk {hit : UInt16 × List UInt8 → Exec Bool}
    {hit' : UInt16 × List UInt8 → Except MlsParseError Bool} (buf : List UInt8)
    (hbuf : buf.length ≤ isizeMax w)
    (hhit : ∀ tagged, tagged.2.length ≤ buf.length →
      Settles (Access.Safe w) (hit tagged) (hit' tagged))
    (rounds fuel i : ℕ) (hi : i ≤ buf.length) (hrounds : buf.length < i+3*rounds)
    (hfuel : buf.length ≤ i+fuel) :
    Settles (Access.Safe w) (walk w hit buf rounds i)
      (scanFrom taggedBytes hit' buf fuel i) := by
  induction rounds generalizing fuel i with
  | zero => omega
  | succ rounds ih =>
    unfold walk
    refine (settles_offset hi).ok ?_
    by_cases hlt : i < buf.length
    · obtain ⟨fuel, rfl⟩ : ∃ n, fuel = n+1 := ⟨fuel-1, by omega⟩
      have hread := follows_readTagged hw buf i hbuf hi
      rw [scanFrom, if_pos hlt, if_pos hlt]
      cases hr : taggedBytes buf i with
      | error e =>
        rw [hr] at hread
        exact hread.error _
      | ok read =>
        obtain ⟨hprogress, hj, hdata⟩ := tagged_progress hi hr
        have hfound := hhit read.1 hdata
        rw [hr] at hread
        refine hread.ok ?_
        dsimp only
        cases hh : hit' read.1 with
        | error e =>
          rw [hh] at hfound
          exact hfound.error _
        | ok found =>
          rw [hh] at hfound
          refine hfound.ok ?_
          cases found with
          | true => exact settles_value true
          | false =>
            exact (settles_again hprogress).ok (ih fuel read.2 hj (by omega) (by omega))
    · rw [if_neg hlt]
      have hdone : scanFrom taggedBytes hit' buf fuel i = .ok false := by
        cases fuel with
        | zero => rfl
        | succ fuel => rw [scanFrom, if_neg hlt]
      rw [hdone]
      exact settles_value false

theorem settles_isLastResortExtension (rounds : ℕ) (extensionData : List UInt8)
    (hbuf : extensionData.length ≤ isizeMax w) (hrounds : extensionData.length < 3*rounds) :
    Settles (Access.Safe w) (isLastResortExtension w rounds extensionData)
      (MlsParse.isLastResortExtension extensionData) := by
  have hread := follows_readVarBytes hw extensionData 0 hbuf (Nat.zero_le _)
  unfold isLastResortExtension MlsParse.isLastResortExtension
  cases hr : MlsParse.readVarBytes extensionData 0 with
  | error e =>
    rw [hr] at hread
    exact hread.error _
  | ok read =>
    obtain ⟨x, ⟨f, rfl, hf⟩, hd, hj⟩ :=
      (reads_readVarBytes extensionData 0 (Nat.zero_le _) read.1 read.2).mp hr
    have hroom := (drop_split (Nat.zero_le _) hd).1
    have hcontent : read.1.length ≤ f.encode.length := by
      simp [hf, Field.encode]
    rw [hr] at hread
    refine hread.ok ?_
    dsimp only
    by_cases hstop : read.2 = extensionData.length
    · rw [if_neg (not_not.mpr hstop), if_neg (not_not.mpr hstop)]
      exact settles_walk hw read.1 (by omega) (fun component _ => settles_value _) rounds _ 0
        (Nat.zero_le _) (by omega) (by omega)
    · rw [if_pos hstop, if_pos hstop]
      exact settles_fail _

theorem settles_detectLastResort (rounds : ℕ) (extensions : List UInt8)
    (hbuf : extensions.length ≤ isizeMax w) (hrounds : extensions.length < 3*rounds) :
    Settles (Access.Safe w) (detectLastResort w rounds extensions)
      (MlsParse.detectLastResort extensions) := by
  refine settles_walk hw extensions hbuf ?_ rounds _ 0 (Nat.zero_le _) (by omega) (by omega)
  intro extension hdata
  by_cases htype : extension.1 = appDataDictionaryExtensionType
  · rw [if_pos htype, if_pos htype]
    exact settles_isLastResortExtension hw rounds extension.2 (by omega) (by omega)
  · rw [if_neg htype, if_neg htype]
    exact settles_value false

theorem follows_credential : Follows (Access.Safe w) (isizeMax w) (credential w)
    MlsParse.credential :=
  (follows_u16 hw).bind reads_u16 fun _ => (follows_require _ _).bind (reads_require _ _) fun _ =>
    (follows_readVarBytes hw).bind reads_readVarBytes fun _ => follows_lift (settles_ofExcept _)

theorem follows_leafNode : Follows (Access.Safe w) (isizeMax w) (leafNode w)
    MlsParse.leafNode := by
  have hfield := follows_readVarBytes hw
  exact hfield.bind reads_readVarBytes fun _ => hfield.bind reads_readVarBytes fun _ =>
    (follows_credential hw).bind reads_credential fun _ =>
    (follows_times hfield reads_readVarBytes 5).bind reads_capabilities fun _ =>
    (follows_u8 hw).bind reads_u8 fun _ => (follows_require _ _).bind (reads_require _ _) fun _ =>
    (follows_skip hw 16 (by decide)).bind (reads_skip 16) fun _ =>
    hfield.bind reads_readVarBytes fun _ => hfield.bind reads_readVarBytes fun _ =>
    follows_value _

theorem follows_keyPackage (rounds bound : ℕ) (hbound : bound ≤ isizeMax w)
    (hrounds : bound < 3*rounds) :
    Follows (Access.Safe w) bound (keyPackage w rounds) MlsParse.keyPackage := by
  have hfield := (follows_readVarBytes hw).mono hbound
  have hu16 := (follows_u16 hw).mono hbound
  refine hu16.bind reads_u16 fun _ => (follows_require _ _).bind (reads_require _ _) fun _ =>
    hu16.bind reads_u16 fun _ => hfield.bind reads_readVarBytes fun _ =>
    ((follows_leafNode hw).mono hbound).bind reads_leafNode fun _ =>
    hfield.bind_read reads_readVarBytes ?_
  rintro x kpExtensions ⟨f, rfl, rfl⟩ hx
  have hcontent : f.content.length ≤ f.encode.length := by
    simp [Field.encode]
  exact (follows_lift (settles_detectLastResort hw rounds f.content (by omega)
    (by omega))).bind (reads_check _) fun _ => hfield.bind reads_readVarBytes fun _ =>
      follows_value _

theorem settles_parseKeyPackage (rounds : ℕ) (bytes : List UInt8)
    (hbytes : bytes.length ≤ isizeMax w) (hrounds : bytes.length < 3*rounds) :
    Settles (Access.Safe w) (parseKeyPackage w rounds bytes) (MlsParse.parseKeyPackage bytes) := by
  have hread := follows_keyPackage hw rounds bytes.length hbytes hrounds bytes 0 (le_refl _)
    (Nat.zero_le _)
  unfold parseKeyPackage MlsParse.parseKeyPackage
  cases hr : MlsParse.keyPackage bytes 0 with
  | error e =>
    rw [hr] at hread
    exact hread.error _
  | ok read =>
    obtain ⟨x, -, hd, hj⟩ := (reads_keyPackage bytes 0 (Nat.zero_le _) read.1 read.2).mp hr
    have hnext := Reads.next_le (Nat.zero_le _) hd hj
    have hslice := settles_slice (w := w) hnext (le_refl bytes.length)
    rw [List.take_of_length_le (by rw [List.length_drop])] at hslice
    rw [hr] at hread
    refine hread.ok (Settles.ok (hslice.ok (settles_value (bytes.drop read.2, read.2))) ?_)
    dsimp only
    cases (bytes.drop read.2).isEmpty with
    | true => exact settles_value _
    | false => exact settles_fail _

end

/-- On every slice, the parser and its two walks stay in bounds and within `usize`,
go on by three bytes a round, and end with what the parser computes. -/
theorem panic_free (w : ℕ) (hw : w = 32 ∨ w = 64) (bytes : List UInt8)
    (hbytes : bytes.length ≤ isizeMax w) (rounds : ℕ) (hrounds : bytes.length < 3*rounds) :
    Settles (Access.Safe w) (parseKeyPackage w rounds bytes) (MlsParse.parseKeyPackage bytes) ∧
      Settles (Access.Safe w) (detectLastResort w rounds bytes)
        (MlsParse.detectLastResort bytes) ∧
      Settles (Access.Safe w) (isLastResortExtension w rounds bytes)
        (MlsParse.isLastResortExtension bytes) :=
  ⟨settles_parseKeyPackage hw rounds bytes hbytes hrounds,
    settles_detectLastResort hw rounds bytes hbytes hrounds,
    settles_isLastResortExtension hw rounds bytes hbytes hrounds⟩

/-- A length prefix that announces as much as it can. -/
def greedyPrefix : List UInt8 := [0, 1, 0, 1, 0xbf, 0xff, 0xff, 0xff]

theorem panic_free_greedy :
    Settles (Access.Safe 32) (parseKeyPackage 32 3 greedyPrefix)
        (MlsParse.parseKeyPackage greedyPrefix) ∧
      Settles (Access.Safe 32) (detectLastResort 32 3 greedyPrefix)
        (MlsParse.detectLastResort greedyPrefix) ∧
      Settles (Access.Safe 32) (isLastResortExtension 32 3 greedyPrefix)
        (MlsParse.isLastResortExtension greedyPrefix) :=
  panic_free 32 (Or.inl rfl) greedyPrefix (by decide) 3 (by decide)

end Cordn.MlsParse.Checked
