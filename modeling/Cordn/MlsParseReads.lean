import Cordn.MlsGrammar

/-!
# What the parser reads

Each step of the parser reads exactly its part of the layout, so the parser
reads exactly the key packages whose extensions the walk accepts.
-/

set_option autoImplicit false

namespace Cordn.MlsParse
open Reader

theorem toNat_lt (b : UInt8) : b.toNat < 256 := b.toNat_lt

theorem reads_u8 : Reads u8 (fun x v => x = [v]) := by
  intro buf i hi v j
  unfold u8
  constructor
  · intro h
    cases hb : buf[i]? with
    | none => simp [hb] at h
    | some w =>
      simp only [hb, Except.ok.injEq, Prod.mk.injEq] at h
      obtain ⟨rfl, rfl⟩ := h
      obtain ⟨hlt, hw⟩ := List.getElem?_eq_some_iff.mp hb
      exact ⟨[w], rfl, by rw [List.drop_eq_getElem_cons hlt, hw]; rfl, rfl⟩
  · rintro ⟨x, rfl, hd, rfl⟩
    have hb : buf[i]? = some v := by
      rw [← Nat.add_zero i, ← List.getElem?_drop, hd]
      rfl
    simp [hb]

theorem u16Bytes_fromBeBytes (high low : UInt8) :
    u16Bytes (u16FromBeBytes high low) = [high, low] := by
  have hh := toNat_lt high
  have hl := toNat_lt low
  have hv : (u16FromBeBytes high low).toNat = high.toNat*256 + low.toNat := by
    simp only [u16FromBeBytes, UInt16.toNat_ofNat']
    omega
  rw [u16Bytes, hv]
  have h1 : (high.toNat*256 + low.toNat)/256 = high.toNat := by omega
  have h2 : (high.toNat*256 + low.toNat)%256 = low.toNat := by omega
  rw [h1, h2, UInt8.ofNat_toNat, UInt8.ofNat_toNat]

theorem fromBeBytes_u16Bytes (v : UInt16) :
    u16FromBeBytes (UInt8.ofNat (v.toNat/256)) (UInt8.ofNat (v.toNat%256)) = v := by
  have hv := v.toNat_lt
  have h : (UInt8.ofNat (v.toNat/256)).toNat*256 + (UInt8.ofNat (v.toNat%256)).toNat =
      v.toNat := by
    simp only [UInt8.toNat_ofNat']
    omega
  rw [u16FromBeBytes, h, UInt16.ofNat_toNat]

theorem reads_u16 : Reads u16 (fun x v => x = u16Bytes v) := by
  intro buf i hi v j
  unfold u16
  constructor
  · intro h
    cases hb : buf[i]? with
    | none => simp [hb] at h
    | some high =>
      cases hc : buf[i+1]? with
      | none => simp [hb, hc] at h
      | some low =>
        simp only [hb, hc, Except.ok.injEq, Prod.mk.injEq] at h
        obtain ⟨rfl, rfl⟩ := h
        obtain ⟨hlt, hw⟩ := List.getElem?_eq_some_iff.mp hb
        obtain ⟨hlt', hw'⟩ := List.getElem?_eq_some_iff.mp hc
        refine ⟨_, rfl, ?_, rfl⟩
        rw [u16Bytes_fromBeBytes, List.drop_eq_getElem_cons hlt, List.drop_eq_getElem_cons hlt',
          hw, hw']
        rfl
  · rintro ⟨x, rfl, hd, rfl⟩
    have hb : buf[i]? = some (UInt8.ofNat (v.toNat/256)) := by
      rw [← Nat.add_zero i, ← List.getElem?_drop, hd]
      rfl
    have hc : buf[i+1]? = some (UInt8.ofNat (v.toNat%256)) := by
      rw [← List.getElem?_drop, hd]
      rfl
    simp only [hb, hc, fromBeBytes_u16Bytes]
    rfl

theorem reads_skip (n : ℕ) : Reads (skip n) (fun x _ => x.length = n) := by
  intro buf i hi v j
  unfold skip
  constructor
  · intro h
    split at h
    · simp at h
    · rename_i hle
      simp only [Except.ok.injEq, Prod.mk.injEq, true_and] at h
      subst h
      have hlen : ((buf.drop i).take n).length = n := by
        rw [List.length_take, List.length_drop]
        omega
      exact ⟨(buf.drop i).take n, hlen, by rw [← List.drop_drop, List.take_append_drop],
        by rw [hlen]⟩
  · rintro ⟨x, rfl, hd, rfl⟩
    have hle := (drop_split hi hd).1
    rw [if_neg (by omega)]

theorem lead_toNat (first : UInt8) : (first >>> 6).toNat = first.toNat/64 := by
  simp [UInt8.toNat_shiftRight, Nat.shiftRight_eq_div_pow]

theorem lead_supported (first : UInt8) (h : first.toNat/64 < 3) : ¬ first >>> 6 = 0b11 := by
  intro hl
  have ht := congrArg UInt8.toNat hl
  rw [lead_toNat] at ht
  change first.toNat/64 = 3 at ht
  omega

theorem supported_lead (first : UInt8) (h : ¬ first >>> 6 = 0b11) : first.toNat/64 < 3 := by
  have hlt := toNat_lt first
  by_contra hge
  apply h
  apply UInt8.toNat_inj.mp
  rw [lead_toNat]
  change first.toNat/64 = 3
  omega

theorem low_bits (first : UInt8) : (first &&& 0x3f).toNat = first.toNat%64 := by
  rw [UInt8.toNat_and]
  exact Nat.and_two_pow_sub_one_eq_mod first.toNat 6

theorem shift_byte (length : ℕ) (b : UInt8) :
    length <<< 8 ||| b.toNat = length*256 + b.toNat := by
  rw [← Nat.shiftLeft_add_eq_or_of_lt (toNat_lt b), Nat.shiftLeft_eq]

theorem readVarBytes_eq (buf : List UInt8) (i : ℕ) (first : UInt8) (m n : ℕ)
    (hfirst : buf[i]? = some first) (hlead : first.toNat/64 < 3) (hm : 2^(first.toNat/64) = m)
    (hroom : i+m ≤ buf.length)
    (hn : (List.range' 1 (m-1)).foldl
      (fun length k => length*256 + (buf.getD (i+k) 0).toNat) (first.toNat%64) = n) :
    readVarBytes buf i = if buf.length < i+m+n then .error .unexpectedEof
      else .ok ((buf.drop (i+m)).take n, i+m+n) := by
  have hthree := lead_supported first hlead
  have hsize : 1 <<< (first >>> 6).toNat = m := by
    rw [lead_toNat, Nat.one_shiftLeft, hm]
  have hroom' : ¬ buf.length < i+m := by omega
  simp only [readVarBytes, hfirst, hthree, if_false, hsize, hroom', shift_byte, low_bits, hn]

theorem readVarBytes_lead {buf : List UInt8} {i : ℕ} {r : List UInt8 × ℕ}
    (h : readVarBytes buf i = .ok r) : ∃ first, buf[i]? = some first ∧ first.toNat/64 < 3 ∧
      i+2^(first.toNat/64) ≤ buf.length := by
  unfold readVarBytes at h
  cases hb : buf[i]? with
  | none => simp [hb] at h
  | some first =>
    simp only [hb, lead_toNat, Nat.one_shiftLeft] at h
    split at h
    · simp at h
    · rename_i hthree
      split at h
      · simp at h
      · rename_i hroom
        exact ⟨first, rfl, supported_lead first hthree, by omega⟩

def PrefixSize.bytes : PrefixSize → ℕ
  | one => 1
  | two => 2
  | four => 4

theorem lengthPrefix_length (size : PrefixSize) (n : ℕ) :
    (lengthPrefix size n).length = size.bytes := by
  cases size <;> rfl

theorem readVarBytes_lengthPrefix_eq (size : PrefixSize) (n : ℕ) (hn : n < size.bound)
    (buf : List UInt8) (i : ℕ) (hi : i ≤ buf.length) (rest : List UInt8)
    (hd : buf.drop i = lengthPrefix size n ++ rest) :
    readVarBytes buf i = if buf.length < i+size.bytes+n then .error .unexpectedEof
      else .ok ((buf.drop (i+size.bytes)).take n, i+size.bytes+n) := by
  have hget : ∀ k, buf[i+k]? = (lengthPrefix size n ++ rest)[k]? := by
    intro k
    rw [← hd, List.getElem?_drop]
  have hroom : i+size.bytes ≤ buf.length := by
    rw [← lengthPrefix_length size n]
    exact (drop_split hi hd).1
  have hfirst := hget 0
  have hsecond := hget 1
  have hthird := hget 2
  have hfourth := hget 3
  cases size with
  | one =>
    simp only [PrefixSize.bound] at hn
    refine readVarBytes_eq buf i (UInt8.ofNat n) 1 n hfirst ?_ ?_ hroom ?_
    all_goals simp only [UInt8.toNat_ofNat']
    · omega
    · have hz : n%2^8/64 = 0 := by omega
      exact congrArg (fun k => 2^k) hz
    · change n%2^8%64 = n
      omega
  | two =>
    simp only [PrefixSize.bound] at hn
    refine readVarBytes_eq buf i (UInt8.ofNat (64+n/2^8)) 2 n hfirst ?_ ?_ hroom ?_
    all_goals simp only [UInt8.toNat_ofNat']
    · omega
    · have hz : (64+n/2^8)%2^8/64 = 1 := by omega
      exact congrArg (fun k => 2^k) hz
    · simp only [List.range', List.foldl_cons, List.foldl_nil, List.getD_eq_getElem?_getD, hsecond,
        lengthPrefix, List.cons_append, List.getElem?_cons_succ, List.getElem?_cons_zero,
        Option.getD_some, UInt8.toNat_ofNat']
      omega
  | four =>
    simp only [PrefixSize.bound] at hn
    refine readVarBytes_eq buf i (UInt8.ofNat (128+n/2^24)) 4 n hfirst ?_ ?_ hroom ?_
    all_goals simp only [UInt8.toNat_ofNat']
    · omega
    · have hz : (128+n/2^24)%2^8/64 = 2 := by omega
      exact congrArg (fun k => 2^k) hz
    · simp only [List.range', List.foldl_cons, List.foldl_nil, List.getD_eq_getElem?_getD, hsecond,
        hthird, hfourth, lengthPrefix, List.cons_append, List.getElem?_cons_succ,
        List.getElem?_cons_zero, Option.getD_some, UInt8.toNat_ofNat']
      omega

theorem prefix_of_lead (first : UInt8) (tail : List UInt8) (hlead : first.toNat/64 < 3)
    (hroom : 2^(first.toNat/64) ≤ tail.length+1) :
    ∃ size n rest, n < PrefixSize.bound size ∧ first::tail = lengthPrefix size n ++ rest := by
  have hf := toNat_lt first
  rcases (by omega : first.toNat/64 = 0 ∨ first.toNat/64 = 1 ∨ first.toNat/64 = 2) with h | h | h
  · refine ⟨.one, first.toNat, tail, by simp only [PrefixSize.bound]; omega, ?_⟩
    rw [lengthPrefix, UInt8.ofNat_toNat, List.singleton_append]
  · rw [h] at hroom
    match tail, hroom with
    | b::rest, _ =>
      have hb := toNat_lt b
      refine ⟨.two, first.toNat%64*2^8 + b.toNat, rest, by
        simp only [PrefixSize.bound]; omega, ?_⟩
      have h0 : 64+(first.toNat%64*2^8 + b.toNat)/2^8 = first.toNat := by omega
      have h1 : (first.toNat%64*2^8 + b.toNat)%2^8 = b.toNat := by omega
      rw [lengthPrefix, h0, h1, UInt8.ofNat_toNat, UInt8.ofNat_toNat]
      rfl
  · rw [h] at hroom
    match tail, hroom with
    | b::c::d::rest, _ =>
      have hb := toNat_lt b
      have hc := toNat_lt c
      have hd := toNat_lt d
      refine ⟨.four, ((first.toNat%64*2^8 + b.toNat)*2^8 + c.toNat)*2^8 + d.toNat, rest, by
        simp only [PrefixSize.bound]; omega, ?_⟩
      generalize hn : ((first.toNat%64*2^8 + b.toNat)*2^8 + c.toNat)*2^8 + d.toNat = n
      have h0 : 128+n/2^24 = first.toNat := by omega
      have h1 : n/2^16%2^8 = b.toNat := by omega
      have h2 : n/2^8%2^8 = c.toNat := by omega
      have h3 : n%2^8 = d.toNat := by omega
      rw [lengthPrefix, h0, h1, h2, h3, UInt8.ofNat_toNat, UInt8.ofNat_toNat, UInt8.ofNat_toNat,
        UInt8.ofNat_toNat]
      rfl
    | [], hr => simp at hr
    | [_], hr => simp at hr
    | [_, _], hr => simp at hr

theorem reads_readVarBytes :
    Reads readVarBytes (fun x data => ∃ f : Field, x = f.encode ∧ data = f.content) := by
  intro buf i hi data j
  constructor
  · intro h
    obtain ⟨first, hfirst, hlead, hroom⟩ := readVarBytes_lead h
    obtain ⟨hlt, hw⟩ := List.getElem?_eq_some_iff.mp hfirst
    have hcons : buf.drop i = first::buf.drop (i+1) := by
      rw [List.drop_eq_getElem_cons hlt, hw]
    obtain ⟨size, n, rest, hn, hd⟩ := prefix_of_lead first (buf.drop (i+1)) hlead (by
      rw [List.length_drop]
      omega)
    rw [← hcons] at hd
    have hrest : buf.drop (i+size.bytes) = rest := by
      rw [← lengthPrefix_length size n]
      exact (drop_split hi hd).2
    rw [readVarBytes_lengthPrefix_eq size n hn buf i hi rest hd] at h
    split at h
    · simp at h
    · rename_i hle
      simp only [Except.ok.injEq, Prod.mk.injEq] at h
      obtain ⟨rfl, rfl⟩ := h
      have hlen : ((buf.drop (i+size.bytes)).take n).length = n := by
        rw [List.length_take, List.length_drop]
        omega
      refine ⟨_, ⟨⟨size, (buf.drop (i+size.bytes)).take n, by rwa [hlen]⟩, rfl, rfl⟩, ?_, ?_⟩
      · simp only [Field.encode, hlen]
        rw [hd, List.append_assoc, hrest, ← List.drop_drop, hrest, List.take_append_drop]
      · simp only [Field.encode, List.length_append, lengthPrefix_length, hlen, Nat.add_assoc]
  · rintro ⟨x, ⟨f, rfl, rfl⟩, hd, rfl⟩
    rw [Field.encode, List.append_assoc] at hd
    have hdrop := (drop_split hi hd).2
    have hle := (drop_split hi (by rw [hd, ← List.append_assoc] :
      buf.drop i = (lengthPrefix f.size f.content.length ++ f.content) ++ _)).1
    rw [List.length_append, lengthPrefix_length] at hle
    rw [lengthPrefix_length] at hdrop
    rw [readVarBytes_lengthPrefix_eq f.size _ f.fits buf i hi _ hd, if_neg (by omega), hdrop,
      List.take_left, Field.encode, List.length_append, lengthPrefix_length, Nat.add_assoc]

theorem reads_taggedBytes :
    Reads taggedBytes (fun x v => ∃ t : Tagged, x = t.encode ∧ v = t.content) := by
  refine (reads_u16.bind (fun tag => reads_readVarBytes.bind
    (fun data => reads_pure (tag, data)))).congr ?_
  intro x v
  constructor
  · rintro ⟨y, tag, z, rfl, rfl, w, data, u, rfl, ⟨f, rfl, rfl⟩, rfl, rfl⟩
    exact ⟨⟨tag, f⟩, by simp [Tagged.encode], rfl⟩
  · rintro ⟨t, rfl, rfl⟩
    exact ⟨_, t.tag, _, rfl, rfl, _, t.data.content, [], by simp, ⟨t.data, rfl, rfl⟩, rfl, rfl⟩

theorem tagged_ne_nil (x : List UInt8) (v : UInt16 × List UInt8)
    (h : ∃ t : Tagged, x = t.encode ∧ v = t.content) : x ≠ [] := by
  obtain ⟨t, rfl, -⟩ := h
  simp [Tagged.encode, u16Bytes]

theorem reads_capabilities :
    Reads (times readVarBytes 5) (fun x contents => ∃ fs : List Field, fs.length = 5 ∧
      x = fs.flatMap Field.encode ∧ contents = fs.map Field.content) := by
  refine (reads_times reads_readVarBytes 5).congr ?_
  intro x contents
  constructor
  · rintro ⟨hi, hl⟩
    suffices h : ∃ fs : List Field, x = fs.flatMap Field.encode ∧
        contents = fs.map Field.content by
      obtain ⟨fs, hx, hc⟩ := h
      exact ⟨fs, by rw [← hl, hc, List.length_map], hx, hc⟩
    clear hl
    induction hi with
    | nil => exact ⟨[], rfl, rfl⟩
    | cons x a ys as hx has ih =>
      obtain ⟨f, rfl, rfl⟩ := hx
      obtain ⟨fs, rfl, rfl⟩ := ih
      exact ⟨f::fs, rfl, rfl⟩
  · rintro ⟨fs, hl, rfl, rfl⟩
    refine ⟨?_, by rw [List.length_map, hl]⟩
    clear hl
    induction fs with
    | nil => exact .nil
    | cons f fs ih => exact .cons _ _ _ _ ⟨f, rfl, rfl⟩ ih

theorem items_tagged (x : List UInt8) (vs : List (UInt16 × List UInt8)) :
    Items (fun x v => ∃ t : Tagged, x = t.encode ∧ v = t.content) x vs ↔
      ∃ ts : List Tagged, Sequence x ts ∧ vs = ts.map Tagged.content := by
  constructor
  · intro h
    induction h with
    | nil => exact ⟨[], rfl, rfl⟩
    | cons x a ys as hx has ih =>
      obtain ⟨t, rfl, rfl⟩ := hx
      obtain ⟨ts, rfl, rfl⟩ := ih
      exact ⟨t::ts, rfl, rfl⟩
  · rintro ⟨ts, rfl, rfl⟩
    induction ts with
    | nil => exact .nil
    | cons t ts ih => exact .cons _ _ _ _ ⟨t, rfl, rfl⟩ ih

theorem reads_credential : Reads credential
    (fun x name => ∃ c : Credential, x = c.encode ∧ name = c.credentialIdentity) := by
  refine (reads_u16.bind fun credType => (reads_require _ _).bind fun _ =>
    reads_readVarBytes.bind fun identity => reads_check (fromUtf8 identity)).congr ?_
  intro x name
  constructor
  · rintro ⟨_, credType, _, rfl, rfl, _, _, _, rfl, ⟨rfl, hcred⟩, _, _, _, rfl,
      ⟨identity, rfl, rfl⟩, rfl, hname⟩
    rw [decide_eq_true_eq] at hcred
    exact ⟨⟨identity, name, hname⟩, by simp [Credential.encode, hcred], rfl⟩
  · rintro ⟨c, rfl, rfl⟩
    exact ⟨_, 1, _, rfl, rfl, [], (), _, rfl, ⟨rfl, rfl⟩, _, _, [],
      (List.append_nil c.identity.encode).symm, ⟨c.identity, rfl, rfl⟩, rfl, c.utf8⟩

theorem reads_leafNode : Reads leafNode
    (fun x name => ∃ n : LeafNode, x = n.encode ∧ name = n.credential.credentialIdentity) := by
  refine (reads_readVarBytes.bind fun _ => reads_readVarBytes.bind fun _ =>
    reads_credential.bind fun name => reads_capabilities.bind fun _ =>
    reads_u8.bind fun source => (reads_require _ _).bind fun _ => (reads_skip 16).bind fun _ =>
    reads_readVarBytes.bind fun _ => reads_readVarBytes.bind fun _ => reads_pure name).congr ?_
  intro x parsed
  constructor
  · rintro ⟨_, _, _, h1, ⟨hpkePub, e1, -⟩, _, _, _, h2, ⟨sigPub, e2, -⟩,
      _, name, _, h3, ⟨credential, e3, hname⟩, _, _, _, h4, ⟨capabilities, hfive, e4, -⟩,
      _, source, _, h5, e5, _, _, _, h6, ⟨e6, hsource⟩, lifetime, _, _, h7, hsixteen,
      _, _, _, h8, ⟨extensions, e8, -⟩, _, _, _, h9, ⟨signature, e9, -⟩, e10, hparsed⟩
    rw [decide_eq_true_eq] at hsource
    refine ⟨⟨hpkePub, sigPub, credential, capabilities, hfive, lifetime, hsixteen, extensions,
      signature⟩, ?_, hparsed.trans hname⟩
    simp only [h1, h2, h3, h4, h5, h6, h7, h8, h9, e1, e2, e3, e4, e5, e6, e8, e9, e10, hsource,
      LeafNode.encode, List.nil_append, List.append_nil]
  · rintro ⟨n, rfl, rfl⟩
    exact ⟨_, _, _, rfl, ⟨n.hpkePub, rfl, rfl⟩, _, _, _, rfl, ⟨n.sigPub, rfl, rfl⟩,
      _, _, _, rfl, ⟨n.credential, rfl, rfl⟩, _, _, _, rfl, ⟨n.capabilities, n.five, rfl, rfl⟩,
      _, 1, _, rfl, rfl, [], (), _, rfl, ⟨rfl, rfl⟩, n.lifetime, (), _, rfl, n.sixteen,
      _, _, _, rfl, ⟨n.extensions, rfl, rfl⟩, _, _, [], (List.append_nil n.signature.encode).symm,
      ⟨n.signature, rfl, rfl⟩, rfl, rfl⟩

/-- The parser reads a key package up to its end, and its verdict on the
extensions is that of the walk. -/
theorem reads_keyPackage : Reads keyPackage (fun x parsed => ∃ k : RawKeyPackage,
    x = k.encode ∧ detectLastResort k.extensions.content = .ok parsed.isLastResort ∧
      parsed.credentialIdentity = k.credentialIdentity ∧
      parsed.cipherSuite = k.cipherSuite) := by
  refine (reads_u16.bind fun version => (reads_require _ _).bind fun _ => reads_u16.bind
    fun suite => reads_readVarBytes.bind fun _ => reads_leafNode.bind fun name =>
    reads_readVarBytes.bind fun exts => (reads_check (detectLastResort exts)).bind fun flag =>
    reads_readVarBytes.bind fun _ => reads_pure (ParsedKeyPackage.mk name suite flag)).congr ?_
  intro x parsed
  constructor
  · rintro ⟨_, version, _, h1, e1, _, _, _, h2, ⟨e2, hversion⟩, _, suite, _, h3, e3,
      _, _, _, h4, ⟨initKey, e4, -⟩, _, name, _, h5, ⟨leaf, e5, hname⟩,
      _, content, _, h6, ⟨extensions, e6, hcontent⟩, _, flag, _, h7, ⟨e7, hflag⟩,
      _, _, _, h8, ⟨signature, e8, -⟩, e9, hparsed⟩
    rw [decide_eq_true_eq] at hversion
    subst hparsed
    refine ⟨⟨suite, initKey, leaf, extensions, signature⟩, ?_, hcontent ▸ hflag, hname, rfl⟩
    simp only [h1, h2, h3, h4, h5, h6, h7, h8, e1, e2, e3, e4, e5, e6, e7, e8, e9, hversion,
      RawKeyPackage.encode, List.nil_append, List.append_nil]
  · rintro ⟨k, rfl, hflag, hname, hsuite⟩
    obtain ⟨name, suite, flag⟩ := parsed
    simp only at hflag hname hsuite
    subst hname hsuite
    exact ⟨_, 1, _, rfl, rfl, [], (), _, rfl, ⟨rfl, rfl⟩, _, k.cipherSuite, _, rfl, rfl,
      _, _, _, rfl, ⟨k.initKey, rfl, rfl⟩, _, _, _, rfl, ⟨k.leafNode, rfl, rfl⟩,
      _, _, _, rfl, ⟨k.extensions, rfl, rfl⟩, [], flag, _, rfl, ⟨rfl, hflag⟩,
      _, _, [], (List.append_nil k.signature.encode).symm, ⟨k.signature, rfl, rfl⟩, rfl, rfl⟩

theorem parse_iff (bytes : List UInt8) (parsed : ParsedKeyPackage) :
    parseKeyPackage bytes = .ok parsed ↔ ∃ k : RawKeyPackage, bytes = k.encode ∧
      detectLastResort k.extensions.content = .ok parsed.isLastResort ∧
      parsed.credentialIdentity = k.credentialIdentity ∧
      parsed.cipherSuite = k.cipherSuite := by
  constructor
  · intro h
    unfold parseKeyPackage at h
    cases hr : keyPackage bytes 0 with
    | error e => simp [hr] at h
    | ok r =>
      obtain ⟨x, ⟨k, rfl, hk⟩, hd, hj⟩ := (reads_keyPackage bytes 0 (Nat.zero_le _) r.1 r.2).mp hr
      simp only [hr] at h
      split at h
      · rename_i hempty
        obtain rfl := Except.ok.inj h
        rw [List.isEmpty_iff.mp hempty, List.append_nil, List.drop_zero] at hd
        exact ⟨k, hd, hk⟩
      · simp at h
  · rintro ⟨k, rfl, hk⟩
    have hr := reads_keyPackage.read (Nat.zero_le k.encode.length) ⟨k, rfl, hk⟩
      (by rw [List.drop_zero, List.append_nil])
    rw [parseKeyPackage, hr]
    simp

end Cordn.MlsParse
