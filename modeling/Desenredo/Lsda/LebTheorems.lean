import Desenredo.Lsda.ChainTheorems

/-!
# The LEB128 readers

What `uleb` and `sleb` make of every byte string. The unsigned reader is exact. The signed reader
is exact up to nine octets; of the tenth it keeps one payload bit and drops the other six, so it
reads a number that fits, and reads another number in place of one that does not.
-/

namespace Desenredo

open Parser Usize

/-! ## The unsigned reader -/

section

variable {octet : UInt8} {input rest : List UInt8} {value n v : ℕ}

/-- The seven bits of octet number `n` fit if their number does. -/
theorem ulebFits_iff (hn : n ≤ 10) :
    UlebFits octet (7 * n) ↔ n ≤ 9 ∧ 2 ^ (7 * n) * Leb128.payload octet < size := by
  constructor
  · rintro (hshift | ⟨hshift, hbit⟩)
    · have hpayload := Nat.mul_lt_mul_of_pos_left (Leb128.payload_lt octet)
        (Nat.two_pow_pos (7 * n))
      have hpow : 2 ^ (7 * n + 7) ≤ size := Nat.pow_le_pow_right (by decide) (by omega)
      rw [pow_add] at hpow
      exact ⟨by omega, by omega⟩
    · obtain rfl : n = 9 := by omega
      refine ⟨le_rfl, ?_⟩
      rw [size]
      omega
  · rintro ⟨hle, hlt⟩
    exact ulebFits_of_lt (by omega) hlt

/-- One turn of the loop, at octet number `n`: the number goes on unless it leaves the word. -/
theorem ulebLoop_turn (hn : n ≤ 10) (hvalue : value < 2 ^ (7 * n)) :
    ulebLoop (octet :: rest) value (7 * n) =
      if n ≤ 9 ∧ value + 2 ^ (7 * n) * Leb128.payload octet < size then
        if Leb128.Continues octet then
          ulebLoop rest (value + 2 ^ (7 * n) * Leb128.payload octet) (7 * (n + 1))
        else .ok (rest, value + 2 ^ (7 * n) * Leb128.payload octet)
      else .error .overflow := by
  have hfits : UlebFits octet (7 * n) ↔
      n ≤ 9 ∧ value + 2 ^ (7 * n) * Leb128.payload octet < size := by
    rw [ulebFits_iff hn]
    refine and_congr_right fun hle => ⟨fun hlt => ?_, fun hlt => by omega⟩
    -- the word is a multiple of the place, so what is below the place does not matter
    have hsize : size = 2 ^ (7 * n) * 2 ^ (64 - 7 * n) := by
      rw [← pow_add, Nat.add_sub_cancel' (by omega)]
    rw [hsize] at hlt ⊢
    have hnext := Nat.mul_le_mul_left (2 ^ (7 * n)) (Nat.lt_of_mul_lt_mul_left hlt)
    rw [Nat.mul_succ] at hnext
    omega
  rw [ulebLoop_cons]
  by_cases hfit : n ≤ 9 ∧ value + 2 ^ (7 * n) * Leb128.payload octet < size
  · rw [if_pos (hfits.2 hfit), if_pos hfit, accumulate_eq hvalue (by omega),
      Nat.mod_eq_of_lt hfit.2, Nat.mul_succ]
  · rw [if_neg (fun h => hfit (hfits.1 h)), if_neg hfit]

/-- The number accumulated so far stays below its place. -/
theorem accumulated_lt (hvalue : value < 2 ^ (7 * n)) :
    value + 2 ^ (7 * n) * Leb128.payload octet < 2 ^ (7 * (n + 1)) := by
  have hpayload := Nat.mul_le_mul_left (2 ^ (7 * n)) (Nat.le_of_lt_succ (Leb128.payload_lt octet))
  rw [Nat.mul_succ, pow_add]
  omega

theorem accumulated_cons (octets : List UInt8) :
    value + 2 ^ (7 * n) * Leb128.value (octet :: octets) =
      value + 2 ^ (7 * n) * Leb128.payload octet + 2 ^ (7 * (n + 1)) * Leb128.value octets := by
  rw [Leb128.value, Nat.mul_succ, pow_add]
  ring

/-- What the loop reads is an encoding. -/
theorem ulebLoop_sound (hn : n ≤ 10) (hvalue : value < 2 ^ (7 * n))
    (h : ulebLoop input value (7 * n) = .ok (rest, v)) :
    ∃ octets, input = octets ++ rest ∧ Leb128.Encoding octets ∧ n + octets.length ≤ 10 ∧
      value + 2 ^ (7 * n) * Leb128.value octets < size ∧
      v = value + 2 ^ (7 * n) * Leb128.value octets := by
  induction input generalizing value n with
  | nil => cases h
  | cons octet input ih =>
    rw [ulebLoop_turn hn hvalue] at h
    split_ifs at h with hfit hmore
    · obtain ⟨octets, rfl, hoctets, hlength, hlt, rfl⟩ :=
        ih (by omega) (accumulated_lt hvalue) h
      rw [← accumulated_cons] at hlt ⊢
      exact ⟨octet :: octets, rfl, .more hmore hoctets, by rw [List.length_cons]; omega, hlt, rfl⟩
    · obtain ⟨rfl, rfl⟩ := Prod.mk.inj (Except.ok.inj h)
      refine ⟨[octet], rfl, .last hmore, by rw [List.length_singleton]; omega, ?_, ?_⟩
      · simpa [Leb128.value] using hfit.2
      · simp [Leb128.value]

/-- The input ends before the number does. -/
theorem ulebLoop_eof (hn : n ≤ 10) (hvalue : value < 2 ^ (7 * n)) (hsize : value < size) :
    ulebLoop input value (7 * n) = .error .eof ↔
      (∀ octet ∈ input, Leb128.Continues octet) ∧ n + input.length ≤ 10 ∧
        value + 2 ^ (7 * n) * Leb128.value input < size := by
  induction input generalizing value n with
  | nil => simp [ulebLoop, Leb128.value, hn, hsize]
  | cons octet input ih =>
    rw [ulebLoop_turn hn hvalue, accumulated_cons, List.forall_mem_cons, List.length_cons]
    split_ifs with hfit hmore
    · rw [ih (by omega) (accumulated_lt hvalue) hfit.2, and_iff_right hmore, Nat.add_assoc,
        Nat.add_comm 1]
    · exact iff_of_false (fun h => by cases h) fun h => hmore h.1.1
    · refine iff_of_false (fun h => by cases h) fun h => hfit ⟨by omega, ?_⟩
      omega

/-- A number is read if and only if it is encoded in at most ten octets and fits. -/
theorem uleb_eq_ok : uleb input = .ok (rest, v) ↔
    ∃ octets, input = octets ++ rest ∧ Leb128.Encoding octets ∧ octets.length ≤ 10 ∧
      Leb128.value octets < size ∧ v = Leb128.value octets := by
  constructor
  · intro h
    obtain ⟨octets, hinput, hoctets, hlength, hlt, rfl⟩ :=
      ulebLoop_sound (n := 0) (by decide) (by decide) h
    rw [Nat.mul_zero, Nat.pow_zero, Nat.one_mul, Nat.zero_add] at hlt ⊢
    exact ⟨octets, hinput, hoctets, by omega, hlt, rfl⟩
  · rintro ⟨octets, rfl, hoctets, hlength, hlt, rfl⟩
    exact uleb_reads hoctets hlength hlt rest

theorem uleb_eq_eof : uleb input = .error .eof ↔
    (∀ octet ∈ input, Leb128.Continues octet) ∧ input.length ≤ 10 ∧ Leb128.value input < size := by
  have hloop : ulebLoop input 0 (7 * 0) = .error .eof ↔ _ :=
    ulebLoop_eof (by decide) (by decide) (by decide)
  simp only [Nat.mul_zero, Nat.pow_zero, Nat.one_mul, Nat.zero_add] at hloop
  exact hloop

/-- Whatever is neither a number nor the beginning of one is an overflow. -/
theorem uleb_eq_overflow : uleb input = .error .overflow ↔
    (∀ result, uleb input ≠ .ok result) ∧ uleb input ≠ .error .eof := by
  constructor
  · intro h
    rw [h]
    exact ⟨nofun, nofun⟩
  · rintro ⟨hok, heof⟩
    cases h : uleb input with
    | ok result => exact absurd h (hok result)
    | error e =>
      rcases uleb_error h with rfl | rfl
      · exact absurd h heof
      · rfl

end

/-- The loop of `uleb` with the amounts by which it shifts payloads next to its result. -/
def ulebTrace : List UInt8 → ℕ → ℕ → List ℕ × Except LsdaError (List UInt8 × ℕ)
  | [], _, _ => ([], .error .eof)
  | octet :: rest, value, shift =>
    let payload := (octet &&& 0x7f).toNat
    let fits := if shift = 63 then payload ≤ 1 else shift ≤ 62
    if ¬fits then ([], .error .overflow)
    else
      let value := value ||| (payload <<< shift) % size
      if octet &&& 0x80 = 0 then ([shift], .ok (rest, value))
      else
        match U32.checkedAdd shift 7 with
        | none => ([shift], .error .overflow)
        | some next => (shift :: (ulebTrace rest value next).1, (ulebTrace rest value next).2)

theorem ulebTrace_cons (octet : UInt8) (rest : List UInt8) (value shift : ℕ) :
    ulebTrace (octet :: rest) value shift =
      if UlebFits octet shift then
        if Leb128.Continues octet then
          (shift :: (ulebTrace rest (accumulate value shift octet) (shift + 7)).1,
            (ulebTrace rest (accumulate value shift octet) (shift + 7)).2)
        else ([shift], .ok (rest, accumulate value shift octet))
      else ([], .error .overflow) := by
  by_cases h : UlebFits octet shift
  · simp only [ulebTrace, fits_iff, h, not_true_eq_false, if_false, if_true, h.next,
      Leb128.Continues, ne_eq, ite_not]
    rfl
  · simp only [ulebTrace, fits_iff, h, not_false_eq_true, if_true, if_false]

/-- The trace is one of the loop. -/
theorem ulebTrace_snd (input : List UInt8) (value shift : ℕ) :
    (ulebTrace input value shift).2 = ulebLoop input value shift := by
  induction input generalizing value shift with
  | nil => rfl
  | cons octet input ih =>
    rw [ulebTrace_cons, ulebLoop_cons]
    split_ifs
    · exact ih _ _
    · rfl
    · rfl

theorem ulebTrace_lt (input : List UInt8) (value shift : ℕ) :
    ∀ s ∈ (ulebTrace input value shift).1, s < 64 := by
  induction input generalizing value shift with
  | nil => exact nofun
  | cons octet input ih =>
    rw [ulebTrace_cons]
    split_ifs with hfits hmore
    · exact List.forall_mem_cons.2 ⟨hfits.lt, ih _ _⟩
    · exact List.forall_mem_cons.2 ⟨hfits.lt, nofun⟩
    · exact nofun

/-- **Unsigned LEB128.** The reader accepts the encodings of 64-bit numbers in at most ten octets
and reads the number each one denotes. Input that ends inside a number is an early end, every
other string an overflow, and no payload is shifted out of the word. -/
theorem uleb_exact (input : List UInt8) :
    (∀ rest v, uleb input = .ok (rest, v) ↔
      ∃ octets, input = octets ++ rest ∧ Leb128.Encoding octets ∧ octets.length ≤ 10 ∧ v < size ∧
        v = ∑ i : Fin octets.length, Leb128.payload (octets.get i) * 2 ^ (7 * i.val)) ∧
    (∀ n < size, uleb (Leb128.encode n ++ input) = .ok (input, n) ∧
      ∀ k ≤ 9, n < 2 ^ (7 * (k + 1)) → uleb (Leb128.encodeIn k n ++ input) = .ok (input, n)) ∧
    (uleb input = .error .eof ↔ (∀ octet ∈ input, Leb128.Continues octet) ∧ input.length ≤ 10 ∧
      Leb128.value input < size) ∧
    (uleb input = .error .overflow ↔
      (∀ result, uleb input ≠ .ok result) ∧ uleb input ≠ .error .eof) ∧
    (ulebTrace input 0 0).2 = uleb input ∧ ∀ shift ∈ (ulebTrace input 0 0).1, shift < 64 := by
  refine ⟨fun rest v => ?_, fun n hn => ⟨?_, fun k hk hfit => ?_⟩, uleb_eq_eof, uleb_eq_overflow,
    ulebTrace_snd input 0 0, ulebTrace_lt input 0 0⟩
  · simp only [uleb_eq_ok, ← Leb128.value_eq_sum]
    constructor
    · rintro ⟨octets, hinput, hoctets, hlength, hlt, rfl⟩
      exact ⟨octets, hinput, hoctets, hlength, hlt, rfl⟩
    · rintro ⟨octets, hinput, hoctets, hlength, hlt, rfl⟩
      exact ⟨octets, hinput, hoctets, hlength, hlt, rfl⟩
  · have hlength : (Leb128.encode n).length ≤ 10 :=
      Leb128.length_encode_le (hn.trans (by decide)) (by decide)
    have hreads := uleb_reads (Leb128.encoding_encode n) hlength
    rw [Leb128.value_encode] at hreads
    exact hreads hn input
  · have hlength : (Leb128.encodeIn k n).length ≤ 10 := by
      rw [Leb128.length_encodeIn]
      omega
    have hreads := uleb_reads (Leb128.encoding_encodeIn hfit) hlength
    rw [Leb128.value_encodeIn hfit] at hreads
    exact hreads hn input

/-! ## The signed reader -/

section

variable {input rest : List UInt8} {value n : ℕ} {v : ℤ}

/-- One turn of the loop, at octet number `n`. -/
theorem slebLoop_turn (octet : UInt8) (rest : List UInt8) (value n : ℕ) :
    slebLoop (octet :: rest) value (7 * n) =
      if n ≤ 9 then
        if Leb128.Continues octet then
          slebLoop rest (accumulate value (7 * n) octet) (7 * (n + 1))
        else .ok (rest, accumulate value (7 * n) octet, 7 * (n + 1), octet)
      else .error .overflow := by
  have hshift : 7 * n < 64 ↔ n ≤ 9 := by omega
  simp only [slebLoop_cons, hshift, Nat.mul_succ]

/-- What the loop reads is an encoding. -/
theorem slebLoop_sound {bits : ℕ × ℕ × UInt8}
    (h : slebLoop input value (7 * n) = .ok (rest, bits)) :
    ∃ octets, input = octets ++ rest ∧ Leb128.Encoding octets ∧ n + octets.length ≤ 10 := by
  induction input generalizing value n with
  | nil => cases h
  | cons octet input ih =>
    rw [slebLoop_turn] at h
    split_ifs at h with hle hmore
    · obtain ⟨octets, rfl, hoctets, hlength⟩ := ih h
      exact ⟨octet :: octets, rfl, .more hmore hoctets, by rw [List.length_cons]; omega⟩
    · obtain ⟨rfl, -⟩ := Prod.mk.inj (Except.ok.inj h)
      exact ⟨[octet], rfl, .last hmore, by rw [List.length_singleton]; omega⟩

/-- Octets that all continue are rejected: the input ends, or there are too many of them. -/
theorem slebLoop_continues (hall : ∀ octet ∈ input.take (10 - n), Leb128.Continues octet)
    (hn : n ≤ 10) : slebLoop input value (7 * n) =
      .error (if n + input.length ≤ 10 then .eof else .overflow) := by
  induction input generalizing value n with
  | nil => rw [slebLoop, List.length_nil, if_pos (by omega)]
  | cons octet input ih =>
    rw [slebLoop_turn, List.length_cons]
    by_cases hle : n ≤ 9
    · have htake : 10 - n = (10 - (n + 1)) + 1 := by omega
      rw [htake, List.take_succ_cons, List.forall_mem_cons] at hall
      rw [if_pos hle, if_pos hall.1, ih hall.2 (by omega), Nat.add_assoc, Nat.add_comm 1]
    · rw [if_neg hle, if_neg (by omega)]

/-- The reader accepts the encodings in at most ten octets. -/
theorem sleb_eq_ok : sleb input = .ok (rest, v) ↔
    ∃ octets, input = octets ++ rest ∧ Leb128.Encoding octets ∧ octets.length ≤ 10 ∧
      v = Fixed.wrap 64 (Leb128.signedValue octets) := by
  constructor
  · intro h
    rw [sleb_eq_map] at h
    obtain ⟨bits, hloop, -⟩ := map_eq_ok.1 h
    obtain ⟨octets, rfl, hoctets, hlength⟩ := slebLoop_sound (n := 0) hloop
    rw [Nat.zero_add] at hlength
    rw [← sleb_eq_map, sleb_wraps hoctets hlength rest] at h
    exact ⟨octets, rfl, hoctets, hlength, (Prod.mk.inj (Except.ok.inj h)).2.symm⟩
  · rintro ⟨octets, rfl, hoctets, hlength, rfl⟩
    exact sleb_wraps hoctets hlength rest

theorem sleb_continues (hall : ∀ octet ∈ input.take 10, Leb128.Continues octet) :
    sleb input = .error (if input.length ≤ 10 then .eof else .overflow) := by
  have hloop : slebLoop input 0 (7 * 0) = _ := slebLoop_continues hall (by decide)
  rw [Nat.zero_add] at hloop
  rw [sleb, hloop]
  rfl

/-- An encoding of more than ten octets is an overflow, whatever it denotes. -/
theorem sleb_long {octets : List UInt8} (h : Leb128.Encoding octets)
    (hlength : 10 < octets.length) : sleb (octets ++ rest) = .error .overflow := by
  have hall : ∀ octet ∈ (octets ++ rest).take 10, Leb128.Continues octet := by
    obtain ⟨xs, last, rfl, hxs, -⟩ := h.eq_append
    rw [List.length_append, List.length_singleton] at hlength
    rw [List.append_assoc, List.take_append_of_le_length (by omega)]
    exact fun octet hmem => hxs octet (List.mem_of_mem_take hmem)
  rw [sleb_continues hall, List.length_append, if_neg (by omega)]

end

/-- **Signed LEB128.** Every 64-bit number is read from each of its encodings in at most ten octets,
whatever follows, and a string without the end of a number in its first ten octets is rejected. -/
theorem sleb_decodes :
    (∀ v : ℤ, -2 ^ 63 ≤ v → v < 2 ^ 63 →
      (∀ octets rest, Leb128.Encoding octets → octets.length ≤ 10 →
        Leb128.signedValue octets = v → sleb (octets ++ rest) = .ok (rest, v)) ∧
      (∀ rest, sleb (Leb128.encodeSigned v ++ rest) = .ok (rest, v)) ∧
      ∀ k ≤ 9, -2 ^ (7 * k + 6) ≤ v → v < 2 ^ (7 * k + 6) →
        ∀ rest, sleb (Leb128.encodeSignedIn k v ++ rest) = .ok (rest, v)) ∧
    ∀ input : List UInt8, (∀ octet ∈ input.take 10, Leb128.Continues octet) →
      sleb input = .error (if input.length ≤ 10 then .eof else .overflow) := by
  refine ⟨fun v hlow hhigh => ?_, fun input => sleb_continues⟩
  have hreads (octets rest : List UInt8) (hoctets : Leb128.Encoding octets)
      (hlength : octets.length ≤ 10) (hvalue : Leb128.signedValue octets = v) :
      sleb (octets ++ rest) = .ok (rest, v) := by
    rw [← hvalue] at hlow hhigh ⊢
    exact sleb_reads hoctets hlength hlow hhigh rest
  refine ⟨hreads, fun rest => ?_, fun k hk hklow hkhigh rest => ?_⟩
  · have hlength : (Leb128.encodeSigned v).length ≤ 9 + 1 :=
      Leb128.length_encodeSigned_le (by omega)
    exact hreads _ rest (Leb128.encoding_encodeSigned v) hlength
      (Leb128.signedValue_encodeSigned v)
  · have hlength : (Leb128.encodeSignedIn k v).length ≤ 10 := by
      rw [Leb128.encodeSignedIn, Leb128.length_encodeIn]
      omega
    exact hreads _ rest (Leb128.encoding_encodeIn (Leb128.encodeSignedIn_lt k v)) hlength
      (Leb128.signedValue_encodeSignedIn hklow hkhigh)

/-! ## The tenth octet -/

/-- The number ends with its tenth octet, whose payload is neither all zeros nor all ones. -/
def TruncatesTenth (input : List UInt8) : Prop :=
  (∀ octet ∈ input.take 9, Leb128.Continues octet) ∧
    ∃ tenth, input[9]? = some tenth ∧ ¬Leb128.Continues tenth ∧ tenth ≠ 0x00 ∧ tenth ≠ 0x7f

/-- Ten octets denote a 64-bit number if and only if the last one only repeats the sign. -/
theorem signedValue_tenth {xs : List UInt8} {tenth : UInt8} (hxs : xs.length = 9)
    (hlast : ¬Leb128.Continues tenth) :
    -2 ^ 63 ≤ Leb128.signedValue (xs ++ [tenth]) ∧ Leb128.signedValue (xs ++ [tenth]) < 2 ^ 63 ↔
      tenth = 0x00 ∨ tenth = 0x7f := by
  have hlow := Leb128.value_lt xs
  rw [Leb128.continues_iff] at hlast
  have hpayload : Leb128.payload tenth = tenth.toNat := by
    rw [Leb128.payload_eq, Nat.mod_eq_of_lt (by omega)]
  have hvalue : Leb128.value (xs ++ [tenth]) = Leb128.value xs + 2 ^ 63 * tenth.toNat := by
    rw [Leb128.value_append, hxs, Leb128.value, Leb128.value, hpayload, Nat.mul_zero, Nat.add_zero]
  have hoctets : tenth = 0x00 ∨ tenth = 0x7f ↔ tenth.toNat = 0 ∨ tenth.toNat = 127 := by
    rw [← UInt8.toNat_inj, ← UInt8.toNat_inj]
    rfl
  rw [hxs] at hlow
  rw [hoctets, Leb128.signedValue, hvalue, List.length_append, hxs, List.length_singleton,
    Fixed.signed]
  split <;> omega

/-- An encoding that is truncated has ten octets and does not denote a 64-bit number. -/
theorem truncatesTenth_iff {octets : List UInt8} (h : Leb128.Encoding octets)
    (rest : List UInt8) : TruncatesTenth (octets ++ rest) ↔ octets.length = 10 ∧
      ¬(-2 ^ 63 ≤ Leb128.signedValue octets ∧ Leb128.signedValue octets < 2 ^ 63) := by
  obtain ⟨xs, last, rfl, hxs, hlast⟩ := h.eq_append
  rw [List.length_append, List.length_singleton]
  constructor
  · rintro ⟨hall, tenth, htenth, hend, hzero, hones⟩
    -- the first octet that does not continue is the last of the encoding
    have hlength : xs.length = 9 := by
      rcases Nat.lt_trichotomy xs.length 9 with hlt | heq | hgt
      · refine absurd (hall last ?_) hlast
        rw [List.append_assoc, List.mem_take_iff_getElem]
        exact ⟨xs.length, by simp; omega, by simp⟩
      · exact heq
      · refine absurd (hxs tenth ?_) hend
        rw [List.append_assoc, List.getElem?_append_left hgt] at htenth
        exact List.mem_of_getElem? htenth
    rw [List.append_assoc, List.getElem?_append_right hlength.le, hlength] at htenth
    obtain rfl : last = tenth := by simpa using htenth
    rw [signedValue_tenth hlength hlast, not_or]
    exact ⟨by omega, hzero, hones⟩
  · rintro ⟨hlength, hrange⟩
    have hlength : xs.length = 9 := by omega
    rw [signedValue_tenth hlength hlast, not_or] at hrange
    refine ⟨?_, last, ?_, hlast, hrange⟩
    · rw [List.append_assoc, List.take_append_of_le_length hlength.ge,
        List.take_of_length_le hlength.le]
      exact hxs
    · rw [List.append_assoc, List.getElem?_append_right hlength.le, hlength]
      rfl

/-- A number of at most nine octets is a 64-bit number. -/
theorem signedValue_short {octets : List UInt8} (h : Leb128.Encoding octets)
    (hlength : octets.length ≤ 9) :
    -2 ^ 63 ≤ Leb128.signedValue octets ∧ Leb128.signedValue octets < 2 ^ 63 := by
  have hpos := h.length_pos
  have hrange := Fixed.signed_range (show 0 < 7 * octets.length by omega) (Leb128.value_lt octets)
  have hhalf : (2 : ℤ) ^ (7 * octets.length - 1) ≤ 2 ^ 63 := by
    exact_mod_cast Nat.pow_le_pow_right (by decide) (by omega)
  exact ⟨le_trans (neg_le_neg hhalf) hrange.1, lt_of_lt_of_le hrange.2 hhalf⟩

/-- The reader returns the number an encoding denotes unless it truncates it. -/
theorem wrap_signedValue {octets : List UInt8} (h : Leb128.Encoding octets)
    (hlength : octets.length ≤ 10) (rest : List UInt8) :
    Fixed.wrap 64 (Leb128.signedValue octets) = Leb128.signedValue octets ↔
      ¬TruncatesTenth (octets ++ rest) := by
  have hwrap : Fixed.wrap 64 (Leb128.signedValue octets) = Leb128.signedValue octets ↔
      -2 ^ 63 ≤ Leb128.signedValue octets ∧ Leb128.signedValue octets < 2 ^ 63 := by
    constructor
    · intro heq
      rw [← heq]
      exact Fixed.wrap_range (by decide) _
    · exact fun hrange => Fixed.wrap_of_range (by decide) hrange.1 hrange.2
  rw [hwrap, truncatesTenth_iff h, not_and, not_not]
  constructor
  · exact fun hrange _ => hrange
  · intro hten
    rcases Nat.lt_or_ge octets.length 10 with hlt | hge
    · exact signedValue_short h (by omega)
    · exact hten (by omega)

/-- What is read is the number of the encoding it was read from, and a number that is no 64-bit
number is an overflow. -/
structure SlebExact (input : List UInt8) : Prop where
  value : ∀ rest v, sleb input = .ok (rest, v) → ∃ octets, input = octets ++ rest ∧
    Leb128.Encoding octets ∧
    v = ((∑ i : Fin octets.length, Leb128.payload (octets.get i) * 2 ^ (7 * i.val) : ℕ) : ℤ) -
      if octets.getLastD 0 &&& 0x40 ≠ 0 then 2 ^ (7 * octets.length) else 0
  overflow : ∀ octets rest, input = octets ++ rest → Leb128.Encoding octets →
    ¬(-2 ^ 63 ≤ Leb128.signedValue octets ∧ Leb128.signedValue octets < 2 ^ 63) →
    sleb input = .error .overflow

theorem slebExact_iff (input : List UInt8) : SlebExact input ↔ ¬TruncatesTenth input := by
  rcases Leb128.encoding_or_continues input with ⟨octets, rest, rfl, hoctets⟩ | hall
  · constructor
    · intro hexact htruncates
      obtain ⟨hlength, hrange⟩ := (truncatesTenth_iff hoctets rest).1 htruncates
      have hok := sleb_wraps hoctets hlength.le rest
      rw [hexact.overflow octets rest rfl hoctets hrange] at hok
      cases hok
    · intro hkept
      refine ⟨fun rest' v h => ?_, fun octets' rest' heq hoctets' hrange => ?_⟩
      · obtain ⟨octets', heq, hoctets', hlength, rfl⟩ := sleb_eq_ok.1 h
        refine ⟨octets', heq, hoctets', ?_⟩
        rw [heq] at hkept
        rw [← Leb128.value_eq_sum, ← Leb128.signedValue_eq hoctets']
        exact (wrap_signedValue hoctets' hlength rest').2 hkept
      · obtain ⟨rfl, rfl⟩ := hoctets.append_inj hoctets' heq
        refine sleb_long hoctets (not_le.1 fun hlength => hkept ?_)
        rcases Nat.lt_or_ge octets.length 10 with hlt | hge
        · exact absurd (signedValue_short hoctets (by omega)) hrange
        · exact (truncatesTenth_iff hoctets rest).2 ⟨by omega, hrange⟩
  · -- without an end there is nothing to be read, and nothing to be truncated
    have herror := sleb_continues fun octet hmem => hall octet (List.mem_of_mem_take hmem)
    refine iff_of_true ⟨fun rest v h => ?_, fun octets rest heq hoctets _ => ?_⟩ ?_
    · rw [herror] at h
      cases h
    · obtain ⟨xs, last, rfl, -, hlast⟩ := hoctets.eq_append
      exact absurd (hall last (by simp [heq])) hlast
    · rintro ⟨-, tenth, htenth, hend, -⟩
      exact hend (hall tenth (List.mem_of_getElem? htenth))

/-! ## Action records -/

/-- The discriminator of a kind. -/
def Kind.index : Kind → ℤ
  | .cleanup => 0
  | .catch index => (index.raw : ℕ)
  | .filter index => -((index.raw : ℕ) : ℤ)

@[simp] theorem Kind.index_ofIndex (index : ℤ) : (Kind.ofIndex index).index = index := by
  unfold Kind.ofIndex
  split_ifs with hzero hpos
  · exact hzero.symm
  · exact Int.natAbs_of_nonneg hpos.le
  · show -(index.natAbs : ℤ) = index
    omega

theorem Kind.index_of_new {index : ℤ} {kind : Kind} (h : Kind.new index = .ok kind) :
    kind.index = index := by
  unfold Kind.new at h
  split_ifs at h with hzero hpos
  · obtain rfl := Except.ok.inj h
    exact hzero.symm
  all_goals
    simp only [Except.bind_eq_ok_iff, Option.okOr_eq_ok, tryFromInt_eq_some, NonZeroUsize.new,
      Option.dite_none_right_eq_some, Option.some.injEq, Except.ok.injEq] at h
    obtain ⟨n, ⟨hn, -⟩, _, ⟨_, rfl⟩, rfl⟩ := h
  · exact hn
  · show -(n : ℤ) = index
    omega

/-- The next record tells the displacement that leads to it. -/
theorem Chain.follow_inj {bytes link : List UInt8} {floor : ℕ} {delta delta' : ℤ}
    {next : Option (List UInt8)} (h : Chain.follow bytes floor link delta = .ok next)
    (h' : Chain.follow bytes floor link delta' = .ok next) : delta = delta' := by
  have htarget {delta : ℤ} (h : Chain.follow bytes floor link delta = .ok next) :
      delta = 0 ∧ next = none ∨ ∃ offset target : ℕ, position bytes link = .ok offset ∧
        (target : ℤ) = offset + delta ∧ target < bytes.length ∧
        next = some (bytes.drop target) := by
    unfold Chain.follow at h
    split_ifs at h with hzero
    · exact .inl ⟨hzero, (Except.ok.inj h).symm⟩
    · obtain ⟨offset, hoffset, h⟩ := Except.bind_eq_ok_iff.1 h
      obtain ⟨target, htarget, h⟩ := Except.bind_eq_ok_iff.1 h
      split_ifs at h with hin
      obtain ⟨⟨rest, skipped⟩, htake, h⟩ := Except.bind_eq_ok_iff.1 h
      rw [takeBytes_of_le hin.2.le, Except.ok.injEq, Prod.mk.injEq] at htake
      exact .inr ⟨offset, target, hoffset, (tryFromInt_eq_some.1 (Option.okOr_eq_ok.1 htarget)).1,
        hin.2, by rw [htake.1, Except.ok.inj h]⟩
  rcases htarget h with ⟨rfl, hnone⟩ | ⟨offset, target, hoffset, hdelta, hlt, hsome⟩ <;>
    rcases htarget h' with ⟨rfl, hnone'⟩ | ⟨offset', target', hoffset', hdelta', hlt', hsome'⟩
  · rfl
  · cases hnone.symm.trans hsome'
  · cases hnone'.symm.trans hsome
  · -- the bytes left after two targets differ in number
    have hlength := congrArg List.length (Option.some.inj (hsome.symm.trans hsome'))
    rw [List.length_drop, List.length_drop] at hlength
    obtain rfl := Except.ok.inj (hoffset.symm.trans hoffset')
    omega

/-- What the chain iterator makes of a record is what the record stores. -/
def RecordExact (bytes : List UInt8) (floor : ℕ) (discriminator input : List UInt8) (kind : Kind)
    (next : Option (List UInt8)) : Prop :=
  ∃ link rest, input = link ++ rest ∧ Leb128.Encoding link ∧
    Kind.new (Leb128.signedValue discriminator) = .ok kind ∧
    Chain.follow bytes floor input (Leb128.signedValue link) = .ok next

theorem recordExact_iff {bytes discriminator input : List UInt8} {floor : ℕ} {kind : Kind}
    {next : Option (List UInt8)} (h : Leb128.Encoding discriminator)
    (hrecord : Chain.record bytes floor (discriminator ++ input) = .ok (kind, next)) :
    RecordExact bytes floor discriminator input kind next ↔
      ¬TruncatesTenth (discriminator ++ input) ∧ ¬TruncatesTenth input := by
  obtain ⟨⟨input', index⟩, hindex, hrecord⟩ := Except.bind_eq_ok_iff.1 hrecord
  obtain ⟨⟨rest, delta⟩, hdelta, hrecord⟩ := Except.bind_eq_ok_iff.1 hrecord
  obtain ⟨kind', hkind, hrecord⟩ := Except.bind_eq_ok_iff.1 hrecord
  obtain ⟨next', hnext, hrecord⟩ := Except.bind_eq_ok_iff.1 hrecord
  obtain ⟨rfl, rfl⟩ := Prod.mk.inj (Except.ok.inj hrecord)
  obtain ⟨octets, heq, hoctets, hlength, rfl⟩ := sleb_eq_ok.1 hindex
  obtain ⟨rfl, rfl⟩ := h.append_inj hoctets heq
  obtain ⟨link, rfl, hlink, hlength', rfl⟩ := sleb_eq_ok.1 hdelta
  rw [← wrap_signedValue h hlength (link ++ rest), ← wrap_signedValue hlink hlength' rest]
  constructor
  · rintro ⟨link', rest', heq', hlink', hkind', hnext'⟩
    obtain ⟨rfl, rfl⟩ := hlink.append_inj hlink' heq'
    refine ⟨?_, Chain.follow_inj hnext hnext'⟩
    rw [← Kind.index_of_new hkind, Kind.index_of_new hkind']
  · rintro ⟨hkept, hkept'⟩
    rw [hkept] at hkind
    rw [hkept'] at hnext
    exact ⟨link, rest, rfl, hlink, hkind, hnext⟩

/-- **Truncated numbers.** The signed reader returns the numbers that are encoded, and rejects what
is no 64-bit number, on exactly the strings whose tenth octet does not end a number with payload
bits that are lost. So a record is read as it is stored if neither of its fields is such a
number, and as another record otherwise. -/
theorem sleb_exact_iff (input : List UInt8) : (SlebExact input ↔ ¬TruncatesTenth input) ∧
    ∀ bytes floor discriminator fields kind next, input = discriminator ++ fields →
      Leb128.Encoding discriminator → Chain.record bytes floor input = .ok (kind, next) →
      (RecordExact bytes floor discriminator fields kind next ↔
        ¬TruncatesTenth input ∧ ¬TruncatesTenth fields) := by
  refine ⟨slebExact_iff input, ?_⟩
  rintro bytes floor discriminator fields kind next rfl h hrecord
  exact recordExact_iff h hrecord

/-- A filter record that links to the record behind it. -/
theorem sleb_exact_iff_link :
    let bytes : List UInt8 := [0x7f, 0x01, 0x01, 0x00]
    Chain.record bytes 0 bytes = .ok (.filter ⟨1, by decide⟩, some [0x01, 0x00]) ∧
    RecordExact bytes 0 [0x7f] [0x01, 0x01, 0x00] (.filter ⟨1, by decide⟩) (some [0x01, 0x00]) := by
  intro bytes
  have hrecord : Chain.record bytes 0 bytes =
      .ok (.filter ⟨1, by decide⟩, some [0x01, 0x00]) := by decide
  have hexact := (sleb_exact_iff bytes).2 bytes 0 [0x7f] [0x01, 0x01, 0x00] _ _ rfl
    (.last (by decide)) hrecord
  refine ⟨hrecord, hexact.2 ⟨fun h => ?_, fun h => ?_⟩⟩
  · exact absurd (h.1 0x7f (by decide)) (by decide)
  · exact absurd (h.1 0x01 (by decide)) (by decide)

/-- A catch record whose discriminator is `2 ^ 64` is read as a cleanup. -/
theorem sleb_truncates : sleb (List.replicate 9 0x80 ++ [0x02, 0x00]) = .ok ([0x00], 0) ∧
    ¬SlebExact (List.replicate 9 0x80 ++ [0x02, 0x00]) ∧
    Chain.record (List.replicate 9 0x80 ++ [0x02, 0x00]) 0 (List.replicate 9 0x80 ++ [0x02, 0x00]) =
      .ok (.cleanup, none) := by
  refine ⟨by decide, fun h => ?_, by decide⟩
  have hmore : ∀ octet ∈ List.replicate 9 (0x80 : UInt8), Leb128.Continues octet := by
    intro octet hoctet
    rw [List.eq_of_mem_replicate hoctet]
    decide
  have hoctets : Leb128.Encoding (List.replicate 9 0x80 ++ [0x02]) :=
    .append hmore (.last (by decide))
  have hoverflow := h.overflow (List.replicate 9 0x80 ++ [0x02]) [0x00] rfl hoctets (by decide)
  exact absurd hoverflow (by decide)

end Desenredo
