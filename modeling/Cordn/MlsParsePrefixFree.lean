import Cordn.MlsParseReads

/-!
# Accepted key packages are prefix-free

A key package cut off anywhere breaks off within some read, which then runs into
the end of the bytes; bytes behind a key package are left over.
-/

set_option autoImplicit false

namespace Cordn.MlsParse
open Reader

theorem detectsCut_u8 : DetectsCut .unexpectedEof u8 := by
  intro buf i hi v j h n hin hnj
  unfold u8 at h ⊢
  cases hb : buf[i]? with
  | none => simp [hb] at h
  | some w =>
    simp only [hb, Except.ok.injEq, Prod.mk.injEq] at h
    have hnone : (buf.take n)[i]? = none := by
      rw [List.getElem?_eq_none_iff, List.length_take]
      omega
    rw [hnone]

theorem detectsCut_u16 : DetectsCut .unexpectedEof u16 := by
  intro buf i hi v j h n hin hnj
  unfold u16 at h ⊢
  cases hb : buf[i]? with
  | none => simp [hb] at h
  | some high =>
    cases hc : buf[i+1]? with
    | none => simp [hb, hc] at h
    | some low =>
      simp only [hb, hc, Except.ok.injEq, Prod.mk.injEq] at h
      have hnone : (buf.take n)[i+1]? = none := by
        rw [List.getElem?_eq_none_iff, List.length_take]
        omega
      rw [hnone]
      cases (buf.take n)[i]? <;> rfl

theorem detectsCut_skip (m : ℕ) : DetectsCut .unexpectedEof (skip m) := by
  intro buf i hi v j h n hin hnj
  unfold skip at h ⊢
  split at h
  · simp at h
  · simp only [Except.ok.injEq, Prod.mk.injEq, true_and] at h
    rw [if_pos (by rw [List.length_take]; omega)]

theorem detectsCut_readVarBytes : DetectsCut .unexpectedEof readVarBytes := by
  intro buf i hi data j h n hin hnj
  obtain ⟨first, hfirst, hlead, hroom⟩ := readVarBytes_lead h
  rcases Nat.eq_or_lt_of_le hin with rfl | hlt
  · have hnone : (buf.take i)[i]? = none :=
      List.getElem?_eq_none (List.length_take_le i buf)
    simp only [readVarBytes, hnone]
  · have hsame : (buf.take n)[i]? = some first := by rw [List.getElem?_take_of_lt hlt, hfirst]
    rw [readVarBytes_eq buf i first _ _ hfirst hlead rfl hroom rfl] at h
    split at h
    · simp at h
    · rename_i hle
      simp only [Except.ok.injEq, Prod.mk.injEq] at h
      obtain ⟨-, rfl⟩ := h
      have hshort : (buf.take n).length ≤ n := List.length_take_le n buf
      by_cases hcut : n < i+2^(first.toNat/64)
      · have hthree := lead_supported first hlead
        have heof : (buf.take n).length < i + 1 <<< (first >>> 6).toNat := by
          rw [lead_toNat, Nat.one_shiftLeft]
          omega
        simp only [readVarBytes, hsame, hthree, if_false, heof, if_true]
      · have hlen : n ≤ buf.length := by omega
        rw [readVarBytes_eq (buf.take n) i first _ _ hsame hlead rfl
          (by rw [List.length_take]; omega) rfl]
        have hlength : ∀ length k, k ∈ List.range' 1 (2^(first.toNat/64)-1) →
            length*256 + ((buf.take n).getD (i+k) 0).toNat =
              length*256 + (buf.getD (i+k) 0).toNat := by
          intro length k hk
          have hkn := (List.mem_range'_1.mp hk).2
          rw [List.getD_eq_getElem?_getD, List.getD_eq_getElem?_getD,
            List.getElem?_take_of_lt (by omega)]
        rw [List.foldl_ext _ _ _ hlength, if_pos (by omega)]

theorem detectsCut_credential : DetectsCut .unexpectedEof credential :=
  detectsCut_u16.bind reads_u16 fun _ => (detectsCut_check _ _).bind (reads_require _ _) fun _ =>
    detectsCut_readVarBytes.bind reads_readVarBytes fun _ => detectsCut_check _ _

theorem detectsCut_leafNode : DetectsCut .unexpectedEof leafNode := by
  have hfield := fun {γ : Type} {q : List UInt8 → Cursor γ} =>
    DetectsCut.bind (q := q) reads_readVarBytes detectsCut_readVarBytes
  exact hfield fun _ => hfield fun _ => detectsCut_credential.bind reads_credential fun _ =>
    (detectsCut_times reads_readVarBytes detectsCut_readVarBytes 5).bind reads_capabilities fun _ =>
    detectsCut_u8.bind reads_u8 fun _ => (detectsCut_check _ _).bind (reads_require _ _) fun _ =>
    (detectsCut_skip 16).bind (reads_skip 16) fun _ => hfield fun _ => hfield fun _ =>
    detectsCut_value _ _

theorem detectsCut_keyPackage : DetectsCut .unexpectedEof keyPackage := by
  have hfield := fun {γ : Type} {q : List UInt8 → Cursor γ} =>
    DetectsCut.bind (q := q) reads_readVarBytes detectsCut_readVarBytes
  exact detectsCut_u16.bind reads_u16 fun _ => (detectsCut_check _ _).bind (reads_require _ _)
    fun _ => detectsCut_u16.bind reads_u16 fun _ => hfield fun _ =>
    detectsCut_leafNode.bind reads_leafNode fun _ => hfield fun _ =>
    (detectsCut_check _ _).bind (reads_check _) fun _ => hfield fun _ => detectsCut_value _ _

theorem keyPackage_of_accepted {bytes : List UInt8} {parsed : ParsedKeyPackage}
    (h : parseKeyPackage bytes = .ok parsed) :
    keyPackage bytes 0 = .ok (parsed, bytes.length) := by
  obtain ⟨k, rfl, hk⟩ := (parse_iff bytes parsed).mp h
  have hr := reads_keyPackage.read (Nat.zero_le k.encode.length) ⟨k, rfl, hk⟩
    (List.append_nil k.encode).symm
  rwa [Nat.zero_add] at hr

/-- Where bytes are accepted, fewer of them run into the end and more of them leave
a rest. -/
theorem accepted_prefix_free (bytes : List UInt8) (parsed : ParsedKeyPackage)
    (h : parseKeyPackage bytes = .ok parsed) :
    (∀ shorter, shorter <+: bytes → shorter ≠ bytes →
      parseKeyPackage shorter = .error .unexpectedEof) ∧
    ∀ more, more ≠ [] → parseKeyPackage (bytes ++ more) = .error .trailingData := by
  have hread := keyPackage_of_accepted h
  constructor
  · intro shorter hprefix hne
    have hless : shorter.length < bytes.length := by
      apply Nat.lt_of_le_of_ne hprefix.length_le
      intro hlen
      exact hne (List.IsPrefix.eq_of_length hprefix hlen)
    have hcut := detectsCut_keyPackage bytes 0 (Nat.zero_le _) parsed _ hread shorter.length
      (Nat.zero_le _) hless
    rw [← List.prefix_iff_eq_take.mp hprefix] at hcut
    rw [parseKeyPackage, hcut]
  · intro more hmore
    obtain ⟨k, hk, hwalk⟩ := (parse_iff bytes parsed).mp h
    have hlonger := reads_keyPackage.read (Nat.zero_le (bytes ++ more).length) ⟨k, hk, hwalk⟩
      (rfl : (bytes ++ more).drop 0 = bytes ++ more)
    have hrest : ((bytes ++ more).drop (0+bytes.length)).isEmpty = false := by
      simp [hmore]
    simp only [parseKeyPackage, hlonger, hrest, Bool.false_eq_true, if_false]

/-- A last-resort package of Alice, its marker behind another extension. -/
def aliceKeyPackage : RawKeyPackage where
  cipherSuite := 2
  initKey := ⟨.one, [21, 22], by decide⟩
  leafNode := {
    hpkePub := ⟨.two, [31, 32, 33], by decide⟩
    sigPub := ⟨.one, [41], by decide⟩
    credential := ⟨⟨.one, [97, 108, 105, 99, 101], by decide⟩, "alice", by decide +kernel⟩
    capabilities := List.replicate 5 ⟨.one, [0, 1], by decide⟩
    five := rfl
    lifetime := List.replicate 16 7
    sixteen := rfl
    extensions := ⟨.one, [0, 3, 1, 9], by decide⟩
    signature := ⟨.one, [51, 52], by decide⟩ }
  extensions := ⟨.one, [0, 5, 2, 8, 9, 0, 6, 4, 3, 0, 4, 0], by decide⟩
  signature := ⟨.one, [61, 62, 63], by decide⟩

theorem accepted_prefix_free_sample :
    (∀ shorter, shorter <+: aliceKeyPackage.encode → shorter ≠ aliceKeyPackage.encode →
      parseKeyPackage shorter = .error .unexpectedEof) ∧
    ∀ more, more ≠ [] →
      parseKeyPackage (aliceKeyPackage.encode ++ more) = .error .trailingData :=
  accepted_prefix_free aliceKeyPackage.encode ⟨"alice", 2, true⟩ (by decide +kernel)

end Cordn.MlsParse
