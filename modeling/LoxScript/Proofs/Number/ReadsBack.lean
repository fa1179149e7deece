import LoxScript.Number.Arithmetic
import LoxScript.Number.Text
import Mathlib.Data.Nat.Basic
import Mathlib.Tactic.Linarith
import Mathlib.Tactic.Ring

/-!
# Reading numbers back

A finite number without a sign is written as digits, possibly with a point and more digits behind it,
and the decimal that these denote rounds to the number.

The value of a magnitude grows with the magnitude, so a decimal that reaches a magnitude reaches all
before it, and the search for the greatest one finds the only magnitude that the decimal reads as. Every
way of writing a magnitude is tested before it is chosen, but for the exact value, which needs no test.

## Main definitions

* `Number.isFinite`: neither an infinity nor a pattern that is not a number.
* `Arithmetic.ReadsBack`: finite literals are written as decimals that denote them.

## Main statements

* `Decimal.exists_digits`: positional notation is a run of digits, or two with a point between them.
* `Number.nearest_eq_of_readsAs`: a decimal rounds to the magnitude that it reads as.
* `Arithmetic.binary64_readsBack`: what is written of a binary64 literal denotes the literal.
-/

namespace LoxScript

/-! ## Positional notation -/

namespace Decimal

variable {d : Decimal}

theorem isDigit_of_mem_digits {c : Char} (hc : c ∈ d.digits) : c.isDigit := by
  rcases List.mem_append.1 hc with hzero | hdigit
  · rw [List.eq_of_mem_replicate hzero]
    decide
  · exact Nat.isDigit_of_mem_toDigits (by decide) (by decide) hdigit

/-- There are more digits than stand behind the point. -/
theorem places_lt_length_digits : d.places < d.digits.length := by
  have hpos : 0 < (Nat.toDigits 10 d.units).length := Nat.length_toDigits_pos
  simp only [digits, List.length_append, List.length_replicate]
  omega

theorem ofDigitChars_digits : Nat.ofDigitChars 10 d.digits 0 = d.units := by
  rw [digits, Nat.ofDigitChars_append, Nat.ofDigitChars_replicate_zero, Nat.mul_zero,
    Nat.ofDigitChars_toDigits (by decide) (by decide)]

/-- A decimal is written as the digits that denote it, with a point only before digits. -/
theorem exists_digits (d : Decimal) :
    ∃ whole fraction, whole ≠ [] ∧ (∀ c ∈ whole, c.isDigit) ∧ (∀ c ∈ fraction, c.isDigit) ∧
      d = .ofDigits whole fraction ∧
      d.text = if fraction = [] then whole else whole ++ '.' :: fraction := by
  have hlength := d.places_lt_length_digits
  refine ⟨d.digits.take (d.digits.length - d.places), d.digits.drop (d.digits.length - d.places),
    ?_, ?_, ?_, ?_, ?_⟩
  · apply List.ne_nil_of_length_pos
    rw [List.length_take]
    omega
  · exact fun c hc => isDigit_of_mem_digits (List.mem_of_mem_take hc)
  · exact fun c hc => isDigit_of_mem_digits (List.mem_of_mem_drop hc)
  · have hplaces : d.places = d.digits.length - (d.digits.length - d.places) := by omega
    rw [ofDigits, List.take_append_drop, ofDigitChars_digits, List.length_drop, ← hplaces]
  · by_cases hplaces : d.places = 0
    · simp [text, hplaces]
    · have hfraction : d.digits.drop (d.digits.length - d.places) ≠ [] := by
        rw [Ne, List.drop_eq_nil_iff]
        omega
      rw [text, if_neg hplaces, if_neg hfraction]

end Decimal

namespace Number

variable {numerator denominator : Nat} {a b m : Nat}

/-! ## Magnitudes reached -/

theorem steps_lt_succ (m : Nat) : steps m < steps (m + 1) := by
  have hpos : 0 < Nat.pow 2 52 := by decide
  unfold steps
  generalize Nat.pow 2 52 = width at hpos
  have hfraction := Nat.mod_lt m hpos
  have hm := Nat.div_add_mod m width
  generalize m / width = exponent at hm
  generalize m % width = fraction at hm hfraction
  subst hm
  by_cases hlast : fraction + 1 = width
  -- the exponent goes up, and the fraction begins again
  · have hnext : width * exponent + fraction + 1 = width * (exponent + 1) := by
      rw [Nat.mul_succ]
      omega
    rw [hnext, Nat.mul_div_cancel_left _ hpos, Nat.mul_mod_right]
    cases exponent with
    | zero => simp; omega
    | succ exponent =>
      have hdouble : width * Nat.pow 2 (exponent + 1) = (width + width) * Nat.pow 2 exponent := by
        rw [show Nat.pow 2 (exponent + 1) = 2 ^ exponent * 2 from pow_succ 2 exponent]
        show _ = (width + width) * 2 ^ exponent
        ring
      have hlt : width + fraction < width + width := by omega
      have hsteps := Nat.mul_lt_mul_of_pos_right hlt (Nat.two_pow_pos exponent)
      rw [if_neg (Nat.succ_ne_zero _), if_neg (Nat.succ_ne_zero _)]
      show _ < width * Nat.pow 2 (exponent + 1)
      rwa [hdouble]
  · have hnext : fraction + 1 < width := by omega
    rw [Nat.add_assoc, Nat.mul_add_div hpos, Nat.mul_add_mod, Nat.div_eq_of_lt hnext,
      Nat.mod_eq_of_lt hnext]
    cases exponent with
    | zero => simp
    | succ exponent =>
      have hlt : width + fraction < width + (fraction + 1) := by omega
      rw [if_neg (Nat.succ_ne_zero _), if_neg (Nat.succ_ne_zero _)]
      exact Nat.mul_lt_mul_of_pos_right hlt (Nat.two_pow_pos _)

theorem steps_strictMono : StrictMono steps := strictMono_nat_of_lt_succ steps_lt_succ

theorem pow_ten_pos (places : Nat) : 0 < Nat.pow 10 places := Nat.pow_pos (by decide)

/-- A magnitude is reached from the middle before it on. Values are in units of the least positive one,
which is kept from being computed. -/
theorem exists_unit_reaches : ∃ unit, unit = Nat.pow 2 1074 ∧
    ∀ numerator denominator m, Reaches numerator denominator (m + 1) ↔
      (steps m + steps (m + 1)) * denominator < 2 * (numerator * unit) ∨
        (steps m + steps (m + 1)) * denominator = 2 * (numerator * unit) ∧ (m + 1) % 2 = 0 := by
  have hpow : ∀ k n, n = k + 1 → Nat.pow 2 n = 2 * Nat.pow 2 k := by
    rintro k _ rfl
    exact pow_succ' 2 k
  refine ⟨Nat.pow 2 1074, rfl, fun numerator denominator m => ?_⟩
  rw [Nat.mul_left_comm, ← hpow 1074 1075 rfl]
  exact Iff.rfl

/-- What is beyond the middle before a magnitude is beyond all middles before that. -/
theorem Reaches.of_le (hdenominator : 0 < denominator) (hab : a ≤ b)
    (hb : Reaches numerator denominator b) : Reaches numerator denominator a := by
  obtain ⟨unit, -, hreaches⟩ := exists_unit_reaches
  cases a with
  | zero => trivial
  | succ a =>
    obtain rfl | hlt := Nat.eq_or_lt_of_le hab
    · exact hb
    obtain ⟨b, rfl⟩ := Nat.exists_eq_add_of_le' (Nat.zero_lt_of_lt hlt)
    have hsteps : steps a + steps (a + 1) < steps b + steps (b + 1) :=
      Nat.add_lt_add (steps_strictMono (by omega)) (steps_strictMono hlt)
    have hmiddle := Nat.mul_lt_mul_of_pos_right hsteps hdenominator
    rw [hreaches] at hb ⊢
    left
    rcases hb with hbeyond | ⟨hon, -⟩
    · exact hmiddle.trans hbeyond
    · exact hon ▸ hmiddle

/-- The search finds the last place up to which the test holds. -/
theorem greatest_eq {test : Nat → Bool} (hdown : ∀ a b, a ≤ b → test b → test a) (hm : test m)
    (hafter : ¬test (m + 1)) {count low : Nat} (hlow : low ≤ m) (hhigh : m < low + Nat.pow 2 count) :
    greatest test count low = m := by
  induction count generalizing low with
  | zero =>
    have hone : Nat.pow 2 0 = 1 := rfl
    show low = m
    omega
  | succ bit ih =>
    have hpow : Nat.pow 2 (bit + 1) = 2 * Nat.pow 2 bit := pow_succ' 2 bit
    unfold greatest
    by_cases hbit : low + Nat.pow 2 bit ≤ m
    · rw [if_pos (hdown _ _ hbit hm)]
      exact ih hbit (by omega)
    · have hfails : ¬test (low + Nat.pow 2 bit) := fun h => hafter (hdown _ _ (by omega) h)
      rw [if_neg hfails]
      exact ih hlow (by omega)

/-- What is found passes the test if the search begins with something that does. -/
theorem greatest_test {test : Nat → Bool} {count low : Nat} (hlow : test low) :
    test (greatest test count low) := by
  induction count generalizing low with
  | zero => exact hlow
  | succ bit ih =>
    unfold greatest
    split
    · next hbit => exact ih hbit
    · exact ih hlow

theorem nearest_le : nearest numerator denominator ≤ infinity := by
  have hzero : 0 ≤ infinity ∧ Reaches numerator denominator 0 := ⟨Nat.zero_le _, trivial⟩
  have hfound := @greatest_test (fun m => m ≤ infinity ∧ Reaches numerator denominator m) 63 0
    (decide_eq_true hzero)
  exact (of_decide_eq_true hfound).1

/-- A decimal rounds to the one magnitude that it reads as. -/
theorem nearest_eq_of_readsAs {d : Decimal} (h : ReadsAs d m) (hm : m ≤ infinity) :
    nearest d.units (Nat.pow 10 d.places) = m := by
  have hpos := pow_ten_pos d.places
  apply greatest_eq
  · intro a b hab hb
    obtain ⟨hle, hreaches⟩ := of_decide_eq_true hb
    exact decide_eq_true ⟨hab.trans hle, hreaches.of_le hpos hab⟩
  · exact decide_eq_true ⟨hm, h.1⟩
  · exact fun hafter => h.2 (of_decide_eq_true hafter).2
  · exact Nat.zero_le m
  · have hbits : infinity < 0 + Nat.pow 2 63 := by decide
    omega

/-! ## Magnitudes written -/

theorem readsAs_of_gridCandidate? {d : Decimal} {exponent : Int}
    (h : gridCandidate? m exponent = some d) : ReadsAs d m := by
  unfold gridCandidate? at h
  dsimp only at h
  split at h
  · next hbelow habove =>
    obtain rfl := Option.some.inj h
    split
    · exact of_decide_eq_true hbelow
    · exact of_decide_eq_true habove
  · next hbelow _ => exact Option.some.inj h ▸ of_decide_eq_true hbelow
  · next _ habove => exact Option.some.inj h ▸ of_decide_eq_true habove
  · cases h

/-- A magnitude lies between the middles around it, so its exact value reads as it. -/
theorem readsAs_of_places {places : Nat} (hplaces : places = 1074) :
    ReadsAs ⟨steps m * Nat.pow 5 places, places⟩ m := by
  have hpos := pow_ten_pos places
  obtain ⟨unit, hunit, hreaches⟩ := exists_unit_reaches
  have hvalue : steps m * Nat.pow 5 places * unit = steps m * Nat.pow 10 places := by
    rw [hunit, ← hplaces, Nat.mul_assoc]
    exact congrArg (steps m * ·) (Nat.mul_pow 5 2 places).symm
  -- it lies between the middles because the steps grow on both sides of it
  constructor
  · cases m with
    | zero => trivial
    | succ m =>
      have hsteps := Nat.add_lt_add_right (steps_lt_succ m) (steps (m + 1))
      have hbefore := Nat.mul_lt_mul_of_pos_right hsteps hpos
      rw [hreaches, hvalue]
      left
      linarith
  · have hsteps := Nat.add_lt_add_left (steps_lt_succ m) (steps m)
    have hafter := Nat.mul_lt_mul_of_pos_right hsteps hpos
    rw [hreaches, hvalue]
    rintro (hbeyond | ⟨hon, -⟩) <;> linarith

theorem readsAs_exact (m : Nat) : ReadsAs (exact m) m := by
  -- with the number of places as a variable, no power of it is ever computed
  have hexact : ∀ places, places = 1074 → ReadsAs ⟨steps m * Nat.pow 5 places, places⟩ m :=
    fun _ => readsAs_of_places
  exact hexact 1074 rfl

theorem readsAs_coarsest (m count : Nat) (exponent : Int) :
    ReadsAs (coarsest m count exponent) m := by
  induction count generalizing exponent with
  | zero => exact readsAs_exact m
  | succ count ih =>
    unfold coarsest
    split
    · next hcandidate => exact readsAs_of_gridCandidate? hcandidate
    · exact ih _

/-- What a magnitude is written as reads as the magnitude. -/
theorem readsAs_shortest (m : Nat) : ReadsAs (shortest m) m := by
  unfold shortest
  split
  · next hzero =>
    subst hzero
    -- the first middle is not zero
    refine ⟨trivial, ?_⟩
    obtain ⟨unit, -, hreaches⟩ := exists_unit_reaches
    rw [hreaches, Nat.zero_mul, Nat.mul_zero]
    rintro (hbeyond | ⟨hon, -⟩)
    · exact absurd hbeyond (Nat.not_lt_zero _)
    · exact absurd hon (by decide)
  · exact readsAs_coarsest m 24 _

/-! ## Numbers without a sign -/

/-- Whether the pattern is a number, and none of the two infinities. -/
def isFinite (x : Number) : Bool := x.magnitude < infinity

theorem toNat_bits_ofMagnitude (hm : m ≤ infinity) : (ofMagnitude m).bits.toNat = m := by
  have hbound : infinity < UInt64.size := by decide
  exact UInt64.toNat_ofNat_of_lt (by omega)

theorem magnitude_ofMagnitude (hm : m ≤ infinity) : (ofMagnitude m).magnitude = m := by
  have hbound : infinity < signBit.toNat := by decide
  rw [magnitude, UInt64.toNat_mod, toNat_bits_ofMagnitude hm, Nat.mod_eq_of_lt (by omega)]

theorem isNegative_ofMagnitude (hm : m ≤ infinity) : (ofMagnitude m).isNegative = false := by
  have hbound : infinity < signBit.toNat := by decide
  rw [isNegative, decide_eq_false_iff_not, UInt64.le_iff_toNat_le, toNat_bits_ofMagnitude hm]
  omega

/-- A finite number without a sign is written as its shortest decimal. -/
theorem text_ofMagnitude (infinityWord : String) (hm : m < infinity) :
    (ofMagnitude m).text infinityWord = String.ofList (shortest m).text := by
  have hmagnitude := magnitude_ofMagnitude hm.le
  have hnan : (ofMagnitude m).isNaN = false := by
    rw [isNaN, hmagnitude]
    exact decide_eq_false hm.asymm
  have hinfinite : (ofMagnitude m).isInfinite = false := by
    rw [isInfinite, hmagnitude]
    exact decide_eq_false hm.ne
  rw [text, hnan, isNegative_ofMagnitude hm.le, hinfinite, hmagnitude]
  exact String.empty_append

end Number

namespace Arithmetic

/-- A literal with a finite value is written as a decimal, and that decimal has the same value. -/
def ReadsBack (A : Arithmetic) : Prop :=
  ∀ d : Decimal, (A.ofDecimal d).isFinite →
    ∃ e : Decimal, (A.ofDecimal d).text "inf" = String.ofList e.text ∧
      A.ofDecimal e = A.ofDecimal d

/-- The decimal that a finite binary64 literal is written as rounds to the literal. -/
theorem binary64_readsBack : binary64.ReadsBack := by
  intro d hfinite
  have hle : Number.nearest d.units (Nat.pow 10 d.places) ≤ Number.infinity := Number.nearest_le
  have hlt : Number.nearest d.units (Nat.pow 10 d.places) < Number.infinity := by
    have hmagnitude := of_decide_eq_true hfinite
    rwa [show binary64.ofDecimal d = Number.ofMagnitude _ from rfl,
      Number.magnitude_ofMagnitude hle] at hmagnitude
  refine ⟨Number.shortest (Number.nearest d.units (Nat.pow 10 d.places)),
    Number.text_ofMagnitude "inf" hlt, ?_⟩
  exact congrArg Number.ofMagnitude (Number.nearest_eq_of_readsAs (Number.readsAs_shortest _) hle)

end Arithmetic

end LoxScript
