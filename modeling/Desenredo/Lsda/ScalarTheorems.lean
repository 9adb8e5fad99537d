import Desenredo.Library.Leb128
import Desenredo.Lsda.Scalar

/-!
# The readers look at nothing behind what they read

Every reader of scalars is local: its successes depend only on the bytes it consumed. The
number of bytes each consumes is bounded below.
-/

namespace Desenredo

open Parser Usize

/-! ## Bytes and fixed-width integers -/

theorem byte_eq_ok {input rest : List UInt8} {b : UInt8} :
    byte input = .ok (rest, b) ↔ input = b :: rest := by
  cases input with
  | nil => simp [byte]
  | cons c input => simp [byte, and_comm]

theorem takeBytes_eq_ok {count : ℕ} {input rest used : List UInt8} :
    takeBytes count input = .ok (rest, used) ↔ input = used ++ rest ∧ used.length = count := by
  rw [takeBytes]
  constructor
  · intro h
    split at h
    · simp only [Except.ok.injEq, Prod.mk.injEq] at h
      obtain ⟨rfl, rfl⟩ := h
      exact ⟨(List.take_append_drop count input).symm, by simpa⟩
    · simp at h
  · rintro ⟨rfl, rfl⟩
    simp

theorem takeBytes_reads (used : List UInt8) : Reads (takeBytes used.length) used used :=
  fun _ => takeBytes_eq_ok.2 ⟨rfl, rfl⟩

theorem takeBytes_local (count : ℕ) : Local (takeBytes count) := by
  intro input rest used h
  obtain ⟨rfl, rfl⟩ := takeBytes_eq_ok.1 h
  exact ⟨used, rfl, takeBytes_reads used⟩

theorem takeBytes_consumes (count : ℕ) : Consumes (takeBytes count) count := by
  intro input rest used h
  obtain ⟨rfl, rfl⟩ := takeBytes_eq_ok.1 h
  simp [Nat.add_comm]

/-- The widths of the fixed formats. -/
def FixedWidth (width : ℕ) : Prop := width = 2 ∨ width = 4 ∨ width = 8

instance (width : ℕ) : Decidable (FixedWidth width) := by
  unfold FixedWidth
  infer_instance

theorem FixedWidth.one_le {width : ℕ} (h : FixedWidth width) : 1 ≤ width := by
  rw [FixedWidth] at h
  omega

theorem unsigned_eq_map {width : ℕ} (h : FixedWidth width) (endian : Endian) :
    unsigned width endian = (takeBytes width).map endian.number := by
  rcases h with rfl | rfl | rfl <;> rfl

theorem signed_eq_map {width : ℕ} (h : FixedWidth width) (endian : Endian) :
    signed width endian =
      (takeBytes width).map fun field => Fixed.signed (8 * width) (endian.number field) := by
  rcases h with rfl | rfl | rfl <;> rfl

/-! ## LEB128 -/

/-- An octet at `shift` does not leave the 64 bits of the unsigned result. -/
def UlebFits (octet : UInt8) (shift : ℕ) : Prop :=
  shift ≤ 62 ∨ shift = 63 ∧ Leb128.payload octet ≤ 1

instance (octet : UInt8) (shift : ℕ) : Decidable (UlebFits octet shift) := by
  unfold UlebFits
  infer_instance

theorem ulebFits_of_lt {octet : UInt8} {shift : ℕ} (hshift : shift ≤ 63)
    (h : 2 ^ shift * Leb128.payload octet < size) : UlebFits octet shift := by
  rcases Nat.lt_or_ge shift 63 with hlt | hge
  · exact .inl (by omega)
  · obtain rfl : shift = 63 := by omega
    rw [size] at h
    exact .inr ⟨rfl, by omega⟩

/-- The check of the source, which takes the last octet by itself. -/
theorem fits_iff {octet : UInt8} {shift : ℕ} :
    (if shift = 63 then (octet &&& 0x7f).toNat ≤ 1 else shift ≤ 62) ↔ UlebFits octet shift := by
  rw [UlebFits, Leb128.payload]
  split <;> omega

theorem UlebFits.lt {octet : UInt8} {shift : ℕ} (h : UlebFits octet shift) : shift < 64 := by
  rcases h with h | ⟨h, -⟩ <;> omega

/-- The checked shift never fails behind an octet that fits. -/
theorem UlebFits.next {octet : UInt8} {shift : ℕ} (h : UlebFits octet shift) :
    U32.checkedAdd shift 7 = some (shift + 7) := by
  have hlt := h.lt
  rw [U32.checkedAdd, if_pos (by omega)]

/-- The bits of one octet, put in their place. -/
def accumulate (value shift : ℕ) (octet : UInt8) : ℕ :=
  value ||| (Leb128.payload octet <<< shift) % size

theorem accumulate_eq {value shift : ℕ} (hvalue : value < 2 ^ shift) (hshift : shift ≤ 64)
    (octet : UInt8) :
    accumulate value shift octet = (value + 2 ^ shift * Leb128.payload octet) % size := by
  let p := Leb128.payload octet
  let q := p % 2 ^ (64 - shift)
  have hsize : size = 2 ^ shift * 2 ^ (64 - shift) := by
    rw [← pow_add, Nat.add_sub_cancel' hshift]
  -- the shift keeps the bits of the payload that still fit into the word
  have hplace : (p <<< shift) % size = 2 ^ shift * q := by
    rw [Nat.shiftLeft_eq, Nat.mul_comm, hsize, Nat.mul_mod_mul_left]
  have hfit : 2 ^ shift * q + value < size := by
    have hq : q + 1 ≤ 2 ^ (64 - shift) := Nat.mod_lt _ (Nat.two_pow_pos _)
    have := Nat.mul_le_mul_left (2 ^ shift) hq
    rw [← hsize, Nat.mul_succ] at this
    omega
  have hsum : value + 2 ^ shift * p = 2 ^ shift * q + value + size * (p / 2 ^ (64 - shift)) := by
    conv_lhs => rw [← Nat.mod_add_div p (2 ^ (64 - shift))]
    rw [hsize]
    ring
  calc accumulate value shift octet
      = value ||| 2 ^ shift * q := by rw [accumulate, hplace]
    _ = 2 ^ shift * q + value := by rw [Nat.two_pow_add_eq_or_of_lt hvalue, Nat.or_comm]
    _ = (value + 2 ^ shift * p) % size := by
      rw [hsum, Nat.add_mul_mod_self_left, Nat.mod_eq_of_lt hfit]

theorem ulebLoop_cons (octet : UInt8) (rest : List UInt8) (value shift : ℕ) :
    ulebLoop (octet :: rest) value shift =
      if UlebFits octet shift then
        if Leb128.Continues octet then
          ulebLoop rest (accumulate value shift octet) (shift + 7)
        else .ok (rest, accumulate value shift octet)
      else .error .overflow := by
  by_cases h : UlebFits octet shift
  · simp only [ulebLoop, fits_iff, h, not_true_eq_false, if_false, if_true, h.next,
      Option.okOr_some, Except.bind_ok, Leb128.Continues, ne_eq, ite_not]
    rfl
  · simp only [ulebLoop, fits_iff, h, not_false_eq_true, if_true, if_false]

theorem ulebLoop_local (value shift : ℕ) : Local fun input => ulebLoop input value shift := by
  intro input
  induction input generalizing value shift with
  | nil => intro rest v h; simp [ulebLoop] at h
  | cons octet input ih =>
    intro rest v h
    simp only [ulebLoop_cons] at h
    split_ifs at h with hfits hmore
    · obtain ⟨used, rfl, hused⟩ := ih _ _ _ _ h
      refine ⟨octet :: used, rfl, fun tail => ?_⟩
      simp only [List.cons_append, ulebLoop_cons, if_pos hfits, if_pos hmore]
      exact hused tail
    · obtain ⟨rfl, rfl⟩ : input = rest ∧ _ = v := by simpa using h
      refine ⟨[octet], rfl, fun tail => ?_⟩
      simp only [List.cons_append, ulebLoop_cons, if_pos hfits, if_neg hmore, List.nil_append]

theorem uleb_local : Local uleb := ulebLoop_local 0 0

theorem ulebLoop_consumes (value shift : ℕ) :
    Consumes (fun input => ulebLoop input value shift) 1 := by
  intro input
  induction input generalizing value shift with
  | nil => intro rest v h; simp [ulebLoop] at h
  | cons octet input ih =>
    intro rest v h
    simp only [ulebLoop_cons] at h
    split_ifs at h with hfits hmore
    · have := ih _ _ _ _ h
      grind
    · grind

theorem uleb_consumes : Consumes uleb 1 := ulebLoop_consumes 0 0

/-- An encoding of at most ten octets whose number fits is read as that number. -/
theorem ulebLoop_reads {octets : List UInt8} (h : Leb128.Encoding octets) (value shift : ℕ)
    (hvalue : value < 2 ^ shift) (hlength : shift + 7 * octets.length ≤ 70)
    (hfit : value + 2 ^ shift * Leb128.value octets < size) :
    Reads (fun input => ulebLoop input value shift) octets
      (value + 2 ^ shift * Leb128.value octets) := by
  intro rest
  show ulebLoop (octets ++ rest) value shift = _
  -- on the encoding; `value` is below its shift, so nothing overlaps
  induction h generalizing value shift with
  | @last octet hlast =>
    simp only [Leb128.value, List.length_singleton, Nat.mul_zero, Nat.add_zero] at *
    have hfits : UlebFits octet shift := ulebFits_of_lt (by omega) (by omega)
    rw [List.singleton_append, ulebLoop_cons, if_pos hfits, if_neg hlast,
      accumulate_eq hvalue (by omega), Nat.mod_eq_of_lt hfit]
  | @more octet octets hmore hoctets ih =>
    have hpos := hoctets.length_pos
    have hpayload := Leb128.payload_lt octet
    have hsplit : value + 2 ^ shift * Leb128.value (octet :: octets) =
        value + 2 ^ shift * Leb128.payload octet + 2 ^ (shift + 7) * Leb128.value octets := by
      rw [Leb128.value, pow_add]
      ring
    rw [List.length_cons] at hlength
    rw [hsplit] at hfit ⊢
    have hfits : UlebFits octet shift := ulebFits_of_lt (by omega) (by omega)
    have hnext : value + 2 ^ shift * Leb128.payload octet < 2 ^ (shift + 7) := by
      have := Nat.mul_le_mul_left (2 ^ shift) (Nat.le_of_lt_succ hpayload)
      rw [pow_add]
      omega
    have hacc : accumulate value shift octet = value + 2 ^ shift * Leb128.payload octet := by
      rw [accumulate_eq hvalue (by omega), Nat.mod_eq_of_lt (by omega)]
    rw [List.cons_append, ulebLoop_cons, if_pos hfits, if_pos hmore, hacc]
    exact ih _ _ hnext (by omega) hfit

/-- An encoding of at most ten octets whose number fits is read as that number. -/
theorem uleb_reads {octets : List UInt8} (h : Leb128.Encoding octets)
    (hlength : octets.length ≤ 10) (hfit : Leb128.value octets < size) :
    Reads uleb octets (Leb128.value octets) := by
  have hloop := ulebLoop_reads h 0 0 (by decide) (by omega)
    (by simpa using hfit)
  simp only [Nat.pow_zero, Nat.one_mul, Nat.zero_add] at hloop
  exact hloop

theorem slebLoop_cons (octet : UInt8) (rest : List UInt8) (value shift : ℕ) :
    slebLoop (octet :: rest) value shift =
      if shift < 64 then
        if Leb128.Continues octet then
          slebLoop rest (accumulate value shift octet) (shift + 7)
        else .ok (rest, accumulate value shift octet, shift + 7, octet)
      else .error .overflow := by
  by_cases h : shift < 64
  · have hshift : U32.checkedAdd shift 7 = some (shift + 7) := by
      rw [U32.checkedAdd, if_pos (by omega)]
    simp only [slebLoop, h, not_le.2 h, if_false, if_true, hshift,
      Option.okOr_some, Except.bind_ok, Leb128.Continues, ne_eq, ite_not]
    rfl
  · simp only [slebLoop, h, not_lt.1 h, if_true, if_false]

/-- The bits `slebLoop` accumulates from an encoding of at most ten octets. -/
theorem slebLoop_reads {octets : List UInt8} (h : Leb128.Encoding octets) (value shift : ℕ)
    (hvalue : value < 2 ^ shift) (hlength : shift + 7 * octets.length ≤ 70) :
    Reads (fun input => slebLoop input value shift) octets
      ((value + 2 ^ shift * Leb128.value octets) % size, shift + 7 * octets.length,
        octets.getLastD 0) := by
  intro rest
  show slebLoop (octets ++ rest) value shift = _
  -- as for the unsigned loop, but the tenth octet may shift bits out of the word
  induction h generalizing value shift with
  | @last octet hlast =>
    rw [List.length_singleton] at hlength
    rw [List.singleton_append, slebLoop_cons, if_pos (by omega), if_neg hlast,
      accumulate_eq hvalue (by omega), Leb128.value, Leb128.value]
    rfl
  | @more octet octets hmore hoctets ih =>
    have hpos := hoctets.length_pos
    have hpayload := Leb128.payload_lt octet
    rw [List.length_cons] at hlength
    have hnext : value + 2 ^ shift * Leb128.payload octet < 2 ^ (shift + 7) := by
      have := Nat.mul_le_mul_left (2 ^ shift) (Nat.le_of_lt_succ hpayload)
      rw [pow_add]
      omega
    have hsize : 2 ^ (shift + 7) ≤ size := Nat.pow_le_pow_right (by decide) (by omega)
    have hacc : accumulate value shift octet = value + 2 ^ shift * Leb128.payload octet := by
      rw [accumulate_eq hvalue (by omega), Nat.mod_eq_of_lt (by omega)]
    have hsplit : value + 2 ^ shift * Leb128.value (octet :: octets) =
        value + 2 ^ shift * Leb128.payload octet + 2 ^ (shift + 7) * Leb128.value octets := by
      rw [Leb128.value, pow_add]
      ring
    have hlength' : shift + 7 * (octet :: octets).length = shift + 7 + 7 * octets.length := by
      rw [List.length_cons]
      ring
    have hlast : (octet :: octets).getLastD 0 = octets.getLastD 0 := by
      cases hoctets <;> rfl
    rw [List.cons_append, slebLoop_cons, if_pos (by omega), if_pos hmore, hacc,
      ih _ _ hnext (by omega), hsplit, hlength', hlast]

theorem sub_one_mul_mod (m n : ℕ) (hm : 0 < m) (hn : 0 < n) :
    (m * n - 1) * m % (m * n) = m * (n - 1) := by
  obtain ⟨r, rfl⟩ := Nat.exists_eq_succ_of_ne_zero hm.ne'
  obtain ⟨q, rfl⟩ := Nat.exists_eq_succ_of_ne_zero hn.ne'
  have hpred : r.succ * q.succ - 1 = r * q + r + q := by
    rw [Nat.succ_mul_succ]
    omega
  have hmul : (r * q + r + q) * r.succ = r.succ * q + r.succ * q.succ * r := by
    simp only [Nat.succ_eq_add_one]
    ring
  have hlt : r.succ * q < r.succ * q.succ := Nat.mul_lt_mul_of_pos_left (by omega) (by omega)
  rw [hpred, hmul, Nat.add_mul_mod_self_left, Nat.mod_eq_of_lt hlt, Nat.succ_sub_one]

/-- Filling the bits from `shift` on turns a number with its top bit set into the 64-bit
number with the same signed reading. -/
theorem slebSigned_eq {value shift : ℕ} (hpos : 0 < shift) (hshift : shift < 64)
    (hvalue : value < 2 ^ shift) {terminal : UInt8}
    (hsign : terminal &&& 0x40 ≠ 0 ↔ 2 ^ (shift - 1) ≤ value) :
    slebSigned value shift terminal = Fixed.signed shift value := by
  have hpow : 2 ^ shift = 2 * 2 ^ (shift - 1) := by
    rw [← pow_succ', Nat.sub_add_cancel hpos]
  have hhalf : 2 ^ shift ≤ 2 ^ 63 := Nat.pow_le_pow_right (by decide) (by omega)
  have hsize : size = 2 ^ shift * 2 ^ (64 - shift) := by
    rw [← pow_add, Nat.add_sub_cancel' hshift.le]
  by_cases h : 2 ^ (shift - 1) ≤ value
  -- a set sign bit: every bit from `shift` on is one
  · have hfill : value ||| ((size - 1) <<< shift) % size = 2 ^ 64 - 2 ^ shift + value := by
      rw [Nat.shiftLeft_eq, hsize, sub_one_mul_mod _ _ (Nat.two_pow_pos _) (Nat.two_pow_pos _),
        Nat.or_comm, ← Nat.two_pow_add_eq_or_of_lt hvalue, Nat.mul_sub_one, ← hsize]
    rw [slebSigned, if_pos ⟨hshift, hsign.2 h⟩, hfill, Fixed.signed, Fixed.signed,
      if_neg (by omega), if_neg (by omega), Nat.cast_add, Nat.cast_sub (by omega)]
    push_cast
    ring
  · have hsmall : ¬(shift < 64 ∧ terminal &&& 0x40 ≠ 0) := fun h' => h (hsign.1 h'.2)
    rw [slebSigned, if_neg hsmall, Fixed.signed_of_lt (by omega), Fixed.signed_of_lt (by omega)]

theorem sleb_eq_map : sleb = Parser.map (fun input => slebLoop input 0 0)
    (fun bits => slebSigned bits.1 bits.2.1 bits.2.2) := rfl

/-- An encoding of at most ten octets is read as the 64-bit number that agrees with its own. -/
theorem sleb_wraps {octets : List UInt8} (h : Leb128.Encoding octets)
    (hlength : octets.length ≤ 10) :
    Reads sleb octets (Fixed.wrap 64 (Leb128.signedValue octets)) := by
  have hpos := h.length_pos
  have hvalue := Leb128.value_lt octets
  have hloop := slebLoop_reads h 0 0 (by decide) (by omega)
  simp only [Nat.zero_add, Nat.pow_zero, Nat.one_mul] at hloop
  rw [sleb_eq_map]
  refine hloop.refine ?_
  rw [Except.ok.injEq]
  show slebSigned (Leb128.value octets % size) (7 * octets.length) (octets.getLastD 0) = _
  -- nine octets leave bits to fill, ten have filled the word already
  rcases Nat.lt_or_ge octets.length 10 with hlt | hge
  · have hsize : 2 ^ (7 * octets.length) ≤ 2 ^ 63 :=
      Nat.pow_le_pow_right (by decide) (by omega)
    have hrange := Fixed.signed_range (show 0 < 7 * octets.length by omega) hvalue
    have hhalf : (2 : ℤ) ^ (7 * octets.length - 1) ≤ 2 ^ 63 := by
      exact_mod_cast Nat.pow_le_pow_right (by decide) (by omega)
    rw [Nat.mod_eq_of_lt (by rw [size]; omega), slebSigned_eq (by omega) (by omega) hvalue
      (Leb128.sign_iff h), Leb128.signedValue, Fixed.wrap_of_range (by decide)]
    · exact le_trans (neg_le_neg hhalf) hrange.1
    · exact lt_of_lt_of_le hrange.2 hhalf
  · rw [slebSigned, if_neg (by omega)]
    refine (Fixed.wrap_eq_signed (Nat.mod_lt _ (by decide)) ?_).symm
    have hdvd : (2 : ℤ) ^ 64 ∣ 2 ^ (7 * octets.length) := pow_dvd_pow 2 (by omega)
    have hmod := (Fixed.signed_modEq (7 * octets.length) (Leb128.value octets)).of_dvd hdvd
    exact hmod.trans (by rw [Int.natCast_mod]; exact (Int.mod_modEq _ _).symm)

/-- An encoding of at most ten octets whose number fits is read as that number. -/
theorem sleb_reads {octets : List UInt8} (h : Leb128.Encoding octets)
    (hlength : octets.length ≤ 10) (hlow : -2 ^ 63 ≤ Leb128.signedValue octets)
    (hhigh : Leb128.signedValue octets < 2 ^ 63) :
    Reads sleb octets (Leb128.signedValue octets) := by
  have hwrap : Fixed.wrap 64 (Leb128.signedValue octets) = Leb128.signedValue octets :=
    Fixed.wrap_of_range (by decide) hlow hhigh
  rw [← hwrap]
  exact sleb_wraps h hlength

theorem slebLoop_local (value shift : ℕ) : Local fun input => slebLoop input value shift := by
  intro input
  induction input generalizing value shift with
  | nil => intro rest v h; simp [slebLoop] at h
  | cons octet input ih =>
    intro rest v h
    simp only [slebLoop_cons] at h
    split_ifs at h with hfits hmore
    · obtain ⟨used, rfl, hused⟩ := ih _ _ _ _ h
      refine ⟨octet :: used, rfl, fun tail => ?_⟩
      simp only [List.cons_append, slebLoop_cons, if_pos hfits, if_pos hmore]
      exact hused tail
    · obtain ⟨rfl, rfl⟩ : input = rest ∧ _ = v := by simpa using h
      refine ⟨[octet], rfl, fun tail => ?_⟩
      simp only [List.cons_append, slebLoop_cons, if_pos hfits, if_neg hmore, List.nil_append]

theorem sleb_local : Local sleb := by
  rw [sleb_eq_map]
  exact (slebLoop_local 0 0).refine

theorem slebLoop_consumes (value shift : ℕ) :
    Consumes (fun input => slebLoop input value shift) 1 := by
  intro input
  induction input generalizing value shift with
  | nil => intro rest v h; simp [slebLoop] at h
  | cons octet input ih =>
    intro rest v h
    simp only [slebLoop_cons] at h
    split_ifs at h with hfits hmore
    · have := ih _ _ _ _ h
      grind
    · grind

theorem sleb_consumes : Consumes sleb 1 := by
  rw [sleb_eq_map]
  exact (slebLoop_consumes 0 0).refine

theorem slebLoop_lt {input rest : List UInt8} {value shift v s : ℕ} {terminal : UInt8}
    (h : slebLoop input value shift = .ok (rest, v, s, terminal)) (hvalue : value < size) :
    v < size := by
  have hstep (octet : UInt8) (shift : ℕ) {value : ℕ} (hvalue : value < size) :
      accumulate value shift octet < size :=
    Nat.or_lt_two_pow hvalue (Nat.mod_lt _ (by decide))
  induction input generalizing value shift with
  | nil => simp [slebLoop] at h
  | cons octet input ih =>
    rw [slebLoop_cons] at h
    split_ifs at h with hfits hmore
    · exact ih h (hstep octet shift hvalue)
    · simp only [Except.ok.injEq, Prod.mk.injEq] at h
      exact h.2.1 ▸ hstep octet shift hvalue

/-- A signed LEB128 value is a 64-bit integer. -/
theorem sleb_range {input rest : List UInt8} {v : ℤ} (h : sleb input = .ok (rest, v)) :
    -2 ^ 63 ≤ v ∧ v < 2 ^ 63 := by
  rw [sleb_eq_map, map, refine_eq_ok] at h
  obtain ⟨⟨value, shift, terminal⟩, hloop, hv⟩ := h
  have hlt := slebLoop_lt hloop (by decide)
  rw [← Except.ok.inj hv, slebSigned]
  refine Fixed.signed_range (by decide) ?_
  split
  · exact Nat.or_lt_two_pow hlt (Nat.mod_lt _ (by decide))
  · exact hlt

theorem ulebLoop_error {input : List UInt8} {value shift : ℕ} {e : LsdaError}
    (h : ulebLoop input value shift = .error e) : e = .eof ∨ e = .overflow := by
  induction input generalizing value shift with
  | nil => exact .inl (Except.error.inj h).symm
  | cons octet input ih =>
    rw [ulebLoop_cons] at h
    split_ifs at h
    · exact ih h
    · exact .inr (Except.error.inj h).symm

theorem uleb_error {input : List UInt8} {e : LsdaError} (h : uleb input = .error e) :
    e = .eof ∨ e = .overflow := ulebLoop_error h

theorem slebLoop_error {input : List UInt8} {value shift : ℕ} {e : LsdaError}
    (h : slebLoop input value shift = .error e) : e = .eof ∨ e = .overflow := by
  induction input generalizing value shift with
  | nil => exact .inl (Except.error.inj h).symm
  | cons octet input ih =>
    rw [slebLoop_cons] at h
    split_ifs at h
    · exact ih h
    · exact .inr (Except.error.inj h).symm

theorem sleb_error {input : List UInt8} {e : LsdaError} (h : sleb input = .error e) :
    e = .eof ∨ e = .overflow := by
  rw [sleb, Except.bind_eq_error_iff] at h
  rcases h with h | ⟨_, _, h⟩
  · exact slebLoop_error h
  · cases h

/-! ## Scalars and offsets -/

theorem unsigned_local {width : ℕ} (h : FixedWidth width) (endian : Endian) :
    Local (unsigned width endian) := by
  rw [unsigned_eq_map h]
  exact (takeBytes_local width).refine

theorem signed_local {width : ℕ} (h : FixedWidth width) (endian : Endian) :
    Local (signed width endian) := by
  rw [signed_eq_map h]
  exact (takeBytes_local width).refine

theorem unsigned_consumes {width : ℕ} (h : FixedWidth width) (endian : Endian) :
    Consumes (unsigned width endian) width := by
  rw [unsigned_eq_map h]
  exact (takeBytes_consumes width).refine

theorem signed_consumes {width : ℕ} (h : FixedWidth width) (endian : Endian) :
    Consumes (signed width endian) width := by
  rw [signed_eq_map h]
  exact (takeBytes_consumes width).refine

/-- What holds of the reader of every format, and of the reader that rejects the others,
holds of `scalar`. -/
theorem scalar_cases {motive : Parser LsdaError UInt8 Scalar → Prop} (endian : Endian)
    (unsigned : ∀ width, FixedWidth width → motive ((unsigned width endian).map .unsigned))
    (signed : ∀ width, FixedWidth width → motive ((signed width endian).map .signed))
    (uleb : motive (uleb.map .unsigned)) (sleb : motive (sleb.map .signed))
    (rejected : motive (.fail .encoding)) (format : DwEhPe) :
    motive (scalar format endian) := by
  unfold scalar
  split
  · exact unsigned 8 (by decide)
  · exact uleb
  · exact sleb
  · exact unsigned 2 (by decide)
  · exact unsigned 4 (by decide)
  · exact unsigned 8 (by decide)
  · exact signed 2 (by decide)
  · exact signed 4 (by decide)
  · exact signed 8 (by decide)
  · exact rejected

theorem scalar_local (format : DwEhPe) (endian : Endian) : Local (scalar format endian) :=
  scalar_cases endian (fun _ h => (unsigned_local h endian).refine)
    (fun _ h => (signed_local h endian).refine) uleb_local.refine sleb_local.refine
    (.fail _) format

theorem scalar_consumes (format : DwEhPe) (endian : Endian) :
    Consumes (scalar format endian) 1 :=
  scalar_cases (motive := (Consumes · 1)) endian
    (fun _ h => ((unsigned_consumes h endian).mono h.one_le).refine)
    (fun _ h => ((signed_consumes h endian).mono h.one_le).refine) uleb_consumes.refine
    sleb_consumes.refine (.fail _ _) format

theorem takeBytes_raises (count : ℕ) : Raises (takeBytes count) (· ≠ .table) := by
  intro input e h
  rw [takeBytes] at h
  split at h
  · cases h
  · cases h
    decide

theorem uleb_raises : Raises uleb (· ≠ .table) := by
  intro input e h
  rcases uleb_error h with rfl | rfl <;> decide

theorem sleb_raises : Raises sleb (· ≠ .table) := by
  intro input e h
  rcases sleb_error h with rfl | rfl <;> decide

/-- Reading a scalar never fails with the error of a malformed table. -/
theorem scalar_raises (format : DwEhPe) (endian : Endian) :
    Raises (scalar format endian) (· ≠ .table) := by
  refine scalar_cases (motive := (Raises · (· ≠ .table))) endian (fun width h => ?_)
    (fun width h => ?_) (uleb_raises.map _) (sleb_raises.map _) (.fail (by decide)) format
  · rw [unsigned_eq_map h]
    exact ((takeBytes_raises width).map _).map _
  · rw [signed_eq_map h]
    exact ((takeBytes_raises width).map _).map _

variable [PointerEncoding]

theorem offset_consumes (encoding : DwEhPe) (endian : Endian) :
    Consumes (offset encoding endian) 1 := by
  simp only [offset]
  split
  · exact (scalar_consumes encoding.format endian).refine
  · exact .fail _ _

theorem offset_raises (encoding : DwEhPe) (endian : Endian) :
    Raises (offset encoding endian) (· ≠ .table) := by
  simp only [offset]
  split
  · refine (scalar_raises encoding.format endian).refine fun s e h => ?_
    rw [← (Option.okOr_eq_error.1 h).2]
    decide
  · exact .fail (by decide)

/-! ## Encoded targets -/

omit [PointerEncoding] in
theorem position_eq_ok {whole rest : List UInt8} {n : ℕ} :
    position whole rest = .ok n ↔ rest.length ≤ whole.length ∧ n = whole.length - rest.length := by
  rw [position, Option.okOr_eq_ok, checkedSub_eq_some]

omit [PointerEncoding] in
theorem aligned_suffix {whole input rest : List UInt8} {bases : Bases}
    (h : aligned whole input bases = .ok rest) : rest <:+ input := by
  simp only [aligned, Except.bind_eq_ok_iff] at h
  obtain ⟨_, -, _, -, ⟨skipped, padding⟩, htake, h⟩ := h
  rw [← Except.ok.inj h]
  exact (takeBytes_local _).suffix htake

/-- What `target` decodes, step by step. -/
theorem target_eq_ok {whole input rest : List UInt8} {e : DwEhPe} {bases : Bases}
    {endian : Endian} {t : Target} :
    target whole e bases endian input = .ok (rest, t) ↔
      e.isValidEncoding ∧ ¬e.isAbsent ∧ ∃ input' offset s base,
        fieldInput whole e bases input = .ok input' ∧
        position whole input' = .ok offset ∧ bases.origin + offset < size ∧
        scalar e.format endian input' = .ok (rest, s) ∧
        applicationBase e.application (bases.origin + offset) bases = .ok base ∧
        s.add base = .ok t.addr ∧ t.indirect = e.isIndirect := by
  rw [target]
  constructor
  · intro h
    split at h
    · rename_i hvalid
      simp only [Except.bind_eq_ok_iff, Prod.exists, Option.okOr_eq_ok, checkedAdd_eq_some,
        Except.ok.injEq, Prod.mk.injEq] at h
      obtain ⟨input', haligned, offset, hoffset, _, ⟨hlt, rfl⟩, _, s, hscalar, base, hbase, addr,
        haddr, rfl, rfl⟩ := h
      exact ⟨hvalid.1, hvalid.2, input', offset, s, base, haligned, hoffset, hlt, hscalar, hbase,
        haddr, rfl⟩
    · cases h
  · rintro ⟨hvalid, habsent, input', offset, s, base, haligned, hoffset, hlt, hscalar, hbase,
      haddr, hindirect⟩
    have hfield : checkedAdd bases.origin offset = some (bases.origin + offset) :=
      checkedAdd_eq_some.2 ⟨hlt, rfl⟩
    rw [if_pos ⟨hvalid, habsent⟩]
    simp only [haligned, Except.bind_ok, hoffset, hfield, Option.okOr_some, hscalar, hbase,
      haddr, ← hindirect]

theorem fieldInput_suffix {whole input rest : List UInt8} {e : DwEhPe} {bases : Bases}
    (h : fieldInput whole e bases input = .ok rest) : rest <:+ input := by
  rw [fieldInput] at h
  split at h
  · exact aligned_suffix h
  · exact Except.ok.inj h ▸ List.suffix_rfl

theorem target_suffix {whole input rest : List UInt8} {e : DwEhPe} {bases : Bases}
    {endian : Endian} {t : Target} (h : target whole e bases endian input = .ok (rest, t)) :
    rest <:+ input := by
  obtain ⟨-, -, input', _, _, _, hinput, -, -, hscalar, -⟩ := target_eq_ok.1 h
  exact ((scalar_local _ _).suffix hscalar).trans (fieldInput_suffix hinput)

end Desenredo
