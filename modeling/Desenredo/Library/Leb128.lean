import Desenredo.Library.Fixed
import Mathlib.Data.Nat.Bitwise
import Mathlib.Algebra.BigOperators.Fin

/-!
# The LEB128 number format

An encoding is a nonempty string of octets of which exactly the last has its top bit clear.
The low seven bits of the octets are the digits of a number in base 128, least significant
first; the signed reading takes them as a two's complement number. Every number has one
encoding of each sufficient length (`encodeIn`), the shortest being `encode`.
-/

namespace Leb128

/-- The seven payload bits of an octet. -/
def payload (octet : UInt8) : ℕ := (octet &&& 0x7f).toNat

/-- The octet announces another one. -/
def Continues (octet : UInt8) : Prop := octet &&& 0x80 ≠ 0

instance (octet : UInt8) : Decidable (Continues octet) := by
  unfold Continues
  infer_instance

/-- Exactly the last octet does not continue. -/
inductive Encoding : List UInt8 → Prop
  | last {octet : UInt8} : ¬Continues octet → Encoding [octet]
  | more {octet : UInt8} {octets : List UInt8} :
      Continues octet → Encoding octets → Encoding (octet :: octets)

/-- The number the payloads of an encoding denote. -/
def value : List UInt8 → ℕ
  | [] => 0
  | octet :: octets => payload octet + 128 * value octets

/-- The two's complement number an encoding denotes, in seven bits for each octet. -/
def signedValue (octets : List UInt8) : ℤ := Fixed.signed (7 * octets.length) (value octets)

/-- The encoding at the beginning of a string, and what follows it. -/
def split : List UInt8 → Option (List UInt8 × List UInt8)
  | [] => none
  | octet :: input =>
    if Continues octet then (split input).map fun found => (octet :: found.1, found.2)
    else some ([octet], input)

/-- The encoding of `n` in `k + 1` octets. -/
def encodeIn : ℕ → ℕ → List UInt8
  | 0, n => [UInt8.ofNat n]
  | k + 1, n => UInt8.ofNat (n % 128 + 128) :: encodeIn k (n / 128)

/-- The shortest encoding of `n`. -/
def encode (n : ℕ) : List UInt8 := encodeIn (n.log2 / 7) n

/-- The two's complement encoding of `v` in `k + 1` octets. -/
def encodeSignedIn (k : ℕ) (v : ℤ) : List UInt8 :=
  encodeIn k (v % 2 ^ (7 * (k + 1))).toNat

/-- The shortest two's complement encoding of `v`. -/
def encodeSigned (v : ℤ) : List UInt8 := encodeSignedIn ((v.natAbs.log2 + 1) / 7) v

/-! ## Octets -/

theorem payload_eq (octet : UInt8) : payload octet = octet.toNat % 128 := by
  rw [payload, UInt8.toNat_and]
  exact Nat.and_two_pow_sub_one_eq_mod octet.toNat 7

theorem payload_lt (octet : UInt8) : payload octet < 128 := by
  rw [payload_eq]
  omega

theorem continues_iff (octet : UInt8) : Continues octet ↔ 128 ≤ octet.toNat := by
  have hbit : octet.toNat &&& 2 ^ 7 = (octet.toNat.testBit 7).toNat * 2 ^ 7 :=
    Nat.and_two_pow octet.toNat 7
  have hzero : octet &&& 0x80 = 0 ↔ octet.toNat &&& 2 ^ 7 = 0 := by
    rw [← UInt8.toNat_inj, UInt8.toNat_and]
    rfl
  have hlt : octet.toNat < 256 := octet.toNat_lt
  rw [Continues, Ne, hzero, hbit, Nat.testBit_eq_decide_div_mod_eq]
  by_cases h : octet.toNat / 2 ^ 7 % 2 = 1
  · simp only [h, decide_true, Bool.toNat_true]
    omega
  · simp only [h, decide_false, Bool.toNat_false]
    omega

theorem sign_octet_iff (octet : UInt8) : octet &&& 0x40 ≠ 0 ↔ 64 ≤ payload octet := by
  have hbit : octet.toNat &&& 2 ^ 6 = (octet.toNat.testBit 6).toNat * 2 ^ 6 :=
    Nat.and_two_pow octet.toNat 6
  have hzero : octet &&& 0x40 = 0 ↔ octet.toNat &&& 2 ^ 6 = 0 := by
    rw [← UInt8.toNat_inj, UInt8.toNat_and]
    rfl
  rw [Ne, hzero, hbit, Nat.testBit_eq_decide_div_mod_eq, payload_eq]
  by_cases h : octet.toNat / 2 ^ 6 % 2 = 1
  · simp only [h, decide_true, Bool.toNat_true]
    omega
  · simp only [h, decide_false, Bool.toNat_false]
    omega

theorem payload_ofNat {n : ℕ} (h : n < 256) : payload (UInt8.ofNat n) = n % 128 := by
  rw [payload_eq, UInt8.toNat_ofNat', Nat.mod_eq_of_lt h]

theorem continues_ofNat {n : ℕ} (h : n < 256) : Continues (UInt8.ofNat n) ↔ 128 ≤ n := by
  rw [continues_iff, UInt8.toNat_ofNat', Nat.mod_eq_of_lt h]

/-! ## Encodings -/

theorem value_lt (octets : List UInt8) : value octets < 2 ^ (7 * octets.length) := by
  induction octets with
  | nil => simp [value]
  | cons octet octets ih =>
    have h := payload_lt octet
    rw [value, List.length_cons, Nat.mul_succ, pow_add]
    omega

theorem Encoding.length_pos {octets : List UInt8} (h : Encoding octets) :
    0 < octets.length := by
  cases h <;> simp

/-- Bit six of the last octet is the sign of the encoded number. -/
theorem sign_iff {octets : List UInt8} (h : Encoding octets) :
    octets.getLastD 0 &&& 0x40 ≠ 0 ↔ 2 ^ (7 * octets.length - 1) ≤ value octets := by
  induction h with
  | @last octet hlast =>
    rw [continues_iff] at hlast
    rw [List.getLastD_cons, List.getLastD_nil, sign_octet_iff, value, value]
    simp
  | @more octet octets _ hoctets ih =>
    have hpos := hoctets.length_pos
    have hpayload := payload_lt octet
    have hlast : (octet :: octets).getLastD 0 = octets.getLastD 0 := by
      cases hoctets <;> rfl
    have hpow : 2 ^ (7 * (octets.length + 1) - 1) = 128 * 2 ^ (7 * octets.length - 1) := by
      rw [← Nat.pow_add (a := 2) (m := 7)]
      congr 1
      omega
    rw [hlast, ih, List.length_cons, hpow, value]
    omega

theorem value_append (xs ys : List UInt8) :
    value (xs ++ ys) = value xs + 2 ^ (7 * xs.length) * value ys := by
  induction xs with
  | nil => simp [value]
  | cons octet xs ih =>
    rw [List.cons_append, value, value, ih, List.length_cons, Nat.mul_succ, pow_add]
    ring

/-- The number is the sum of the payloads, each shifted to its place. -/
theorem value_eq_sum (octets : List UInt8) :
    value octets = ∑ i : Fin octets.length, payload (octets.get i) * 2 ^ (7 * i.val) := by
  induction octets with
  | nil => rfl
  | cons octet octets ih =>
    rw [value, ih, Finset.mul_sum]
    refine Eq.trans ?_ (Fin.sum_univ_succ _).symm
    congr 1
    · simp
    · refine Finset.sum_congr rfl fun i _ => ?_
      have hplace : 2 ^ (7 * i.succ.val) = 128 * 2 ^ (7 * i.val) := by
        rw [Fin.val_succ]
        ring
      rw [hplace, List.get_cons_succ']
      ring

/-- The signed number is the unsigned one, less the next power when its sign bit is set. -/
theorem signedValue_eq {octets : List UInt8} (h : Encoding octets) :
    signedValue octets = (value octets : ℤ) -
      if octets.getLastD 0 &&& 0x40 ≠ 0 then 2 ^ (7 * octets.length) else 0 := by
  have hsign := sign_iff h
  rw [signedValue, Fixed.signed]
  by_cases hlt : value octets < 2 ^ (7 * octets.length - 1)
  · rw [if_pos hlt, if_neg (fun hset => absurd (hsign.1 hset) (not_le.2 hlt)), sub_zero]
  · rw [if_neg hlt, if_pos (hsign.2 (not_lt.1 hlt))]

/-- The octets before the last continue. -/
theorem Encoding.append {xs : List UInt8} (hxs : ∀ octet ∈ xs, Continues octet)
    {octets : List UInt8} (h : Encoding octets) : Encoding (xs ++ octets) := by
  induction xs with
  | nil => exact h
  | cons octet xs ih =>
    rw [List.forall_mem_cons] at hxs
    exact .more hxs.1 (ih hxs.2)

theorem Encoding.eq_append {octets : List UInt8} (h : Encoding octets) :
    ∃ xs octet, octets = xs ++ [octet] ∧ (∀ octet ∈ xs, Continues octet) ∧ ¬Continues octet := by
  induction h with
  | @last octet hlast => exact ⟨[], octet, rfl, nofun, hlast⟩
  | @more octet octets hmore _ ih =>
    obtain ⟨xs, final, rfl, hxs, hfinal⟩ := ih
    exact ⟨octet :: xs, final, rfl, List.forall_mem_cons.2 ⟨hmore, hxs⟩, hfinal⟩

/-- A string starts with an encoding unless all of its octets continue. -/
theorem encoding_or_continues (input : List UInt8) :
    (∃ octets rest, input = octets ++ rest ∧ Encoding octets) ∨
      ∀ octet ∈ input, Continues octet := by
  induction input with
  | nil => exact .inr nofun
  | cons octet input ih =>
    by_cases hmore : Continues octet
    · rcases ih with ⟨octets, rest, rfl, hoctets⟩ | hall
      · exact .inl ⟨octet :: octets, rest, rfl, .more hmore hoctets⟩
      · exact .inr (List.forall_mem_cons.2 ⟨hmore, hall⟩)
    · exact .inl ⟨[octet], input, rfl, .last hmore⟩

/-- A string starts with at most one encoding. -/
theorem Encoding.append_inj {octets octets' rest rest' : List UInt8} (h : Encoding octets)
    (h' : Encoding octets') (heq : octets ++ rest = octets' ++ rest') :
    octets = octets' ∧ rest = rest' := by
  induction h generalizing octets' with
  | last hlast =>
    cases h' with
    | last _ => simpa using heq
    | more hmore _ =>
      rw [List.singleton_append, List.cons_append, List.cons.injEq] at heq
      exact absurd (heq.1 ▸ hmore) hlast
  | more hmore _ ih =>
    cases h' with
    | last hlast =>
      rw [List.singleton_append, List.cons_append, List.cons.injEq] at heq
      exact absurd (heq.1 ▸ hmore) hlast
    | more _ hoctets' =>
      rw [List.cons_append, List.cons_append, List.cons.injEq] at heq
      obtain ⟨rfl, htail⟩ := heq
      obtain ⟨rfl, rfl⟩ := ih hoctets' htail
      exact ⟨rfl, rfl⟩

theorem split_eq_some {input octets rest : List UInt8} :
    split input = some (octets, rest) ↔ input = octets ++ rest ∧ Encoding octets := by
  constructor
  · intro h
    induction input generalizing octets with
    | nil => cases h
    | cons octet input ih =>
      rw [split] at h
      split_ifs at h with hmore
      · obtain ⟨⟨octets', rest'⟩, hfound, heq⟩ := Option.map_eq_some_iff.1 h
        obtain ⟨rfl, rfl⟩ := Prod.mk.inj heq
        obtain ⟨rfl, hoctets⟩ := ih hfound
        exact ⟨rfl, .more hmore hoctets⟩
      · obtain ⟨rfl, rfl⟩ := Prod.mk.inj (Option.some.inj h)
        exact ⟨rfl, .last hmore⟩
  · rintro ⟨rfl, hoctets⟩
    induction hoctets with
    | last hlast => rw [List.singleton_append, split, if_neg hlast]
    | more hmore _ ih => rw [List.cons_append, split, if_pos hmore, ih, Option.map_some]

@[simp] theorem length_encodeIn (k n : ℕ) : (encodeIn k n).length = k + 1 := by
  induction k generalizing n with
  | zero => rfl
  | succ k ih => rw [encodeIn, List.length_cons, ih]

theorem encoding_encodeIn {k n : ℕ} (h : n < 2 ^ (7 * (k + 1))) : Encoding (encodeIn k n) := by
  induction k generalizing n with
  | zero =>
    refine .last ?_
    rw [continues_ofNat] <;> omega
  | succ k ih =>
    rw [Nat.mul_succ, pow_add] at h
    refine .more ?_ (ih (by omega))
    rw [continues_ofNat] <;> omega

theorem value_encodeIn {k n : ℕ} (h : n < 2 ^ (7 * (k + 1))) : value (encodeIn k n) = n := by
  induction k generalizing n with
  | zero =>
    rw [encodeIn, value, value, payload_ofNat] <;> omega
  | succ k ih =>
    rw [Nat.mul_succ, pow_add] at h
    rw [encodeIn, value, ih (by omega), payload_ofNat (by omega)]
    omega

theorem lt_encode (n : ℕ) : n < 2 ^ (7 * (n.log2 / 7 + 1)) :=
  Nat.lt_of_lt_of_le Nat.lt_log2_self (Nat.pow_le_pow_right (by decide) (by omega))

theorem encoding_encode (n : ℕ) : Encoding (encode n) := encoding_encodeIn (lt_encode n)

theorem value_encode (n : ℕ) : value (encode n) = n := value_encodeIn (lt_encode n)

/-- A `7 * k`-bit number takes at most `k` octets. -/
theorem length_encode_le {n k : ℕ} (hn : n < 2 ^ (7 * k)) (hk : 0 < k) :
    (encode n).length ≤ k := by
  rw [encode, length_encodeIn]
  have hlog : n ≠ 0 → n.log2 < 7 * k := fun h0 => (Nat.log2_lt h0).2 hn
  rcases Nat.eq_zero_or_pos n with rfl | h0
  · simpa
  · have := hlog h0.ne'
    omega

theorem encodeSignedIn_lt (k : ℕ) (v : ℤ) :
    (v % 2 ^ (7 * (k + 1))).toNat < 2 ^ (7 * (k + 1)) := by
  have hpos : (0 : ℤ) < 2 ^ (7 * (k + 1)) := Int.pow_pos (by decide)
  have hlt : v % 2 ^ (7 * (k + 1)) < 2 ^ (7 * (k + 1)) := Int.emod_lt_of_pos _ hpos
  have hnat : ((2 ^ (7 * (k + 1)) : ℕ) : ℤ) = 2 ^ (7 * (k + 1)) := by norm_cast
  omega

theorem signedValue_encodeSignedIn {k : ℕ} {v : ℤ} (hlow : -2 ^ (7 * k + 6) ≤ v)
    (hhigh : v < 2 ^ (7 * k + 6)) : signedValue (encodeSignedIn k v) = v := by
  rw [signedValue, encodeSignedIn, length_encodeIn, value_encodeIn (encodeSignedIn_lt k v)]
  rw [show 7 * k + 6 = 7 * (k + 1) - 1 by omega] at hlow hhigh
  exact Fixed.signed_emod (by omega) hlow hhigh

theorem encoding_encodeSigned (v : ℤ) : Encoding (encodeSigned v) :=
  encoding_encodeIn (encodeSignedIn_lt _ v)

theorem signedValue_encodeSigned (v : ℤ) : signedValue (encodeSigned v) = v := by
  have hlog : v.natAbs < 2 ^ (v.natAbs.log2 + 1) := Nat.lt_log2_self
  have hpow : 2 ^ (v.natAbs.log2 + 1) ≤ 2 ^ (7 * ((v.natAbs.log2 + 1) / 7) + 6) :=
    Nat.pow_le_pow_right (by decide) (by omega)
  have hcast : ((2 ^ (7 * ((v.natAbs.log2 + 1) / 7) + 6) : ℕ) : ℤ) =
      2 ^ (7 * ((v.natAbs.log2 + 1) / 7) + 6) := by norm_cast
  exact signedValue_encodeSignedIn (by omega) (by omega)

theorem length_encodeSigned_le {v : ℤ} {k : ℕ} (hv : v.natAbs < 2 ^ (7 * k + 6)) :
    (encodeSigned v).length ≤ k + 1 := by
  rw [encodeSigned, encodeSignedIn, length_encodeIn]
  rcases Nat.eq_zero_or_pos v.natAbs with h0 | h0
  · simp [h0]
  · have := (Nat.log2_lt h0.ne').2 hv
    omega

end Leb128
