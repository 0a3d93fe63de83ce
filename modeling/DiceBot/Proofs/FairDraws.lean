import DiceBot.Proofs.RolledDice
import DiceBot.Proofs.SeededDraws
import Mathlib.Algebra.Order.Floor.Div
import Mathlib.Data.Set.Card
import Mathlib.Order.Interval.Finset.Nat

/-!
# Fair draws

The product of a word with the number of sides falls into the stretch of one face, and the
stretches are all as long as there are words. The products at the beginning of a stretch are
refused, as many of them as the sides leave over of all words, so that the length of the rest is a
multiple of the number of sides. So the words of a face stand in a row, and each face has as many
of them as the others. Dice that hold what is drawn to their faces record each face just as often.
-/
namespace DiceBot

namespace Seeded

/-- The words that a draw turns into the face when it takes no other word. -/
def wordsDrawnAs (sides face : Nat) : Set UInt32 := {word | face? (max sides 1) word = some face}

/-- The words that dice with so many sides record as the face when they take no other word. -/
def wordsShownAs (sides face : Nat) : Set UInt32 :=
  {word | ∃ value, face? (max sides 1) word = some value ∧ max 1 (min value sides) = face}

/-- Every value has its words. From a source that gives one of them next, and from no other, the
action takes this word alone and gives the value. Each face has the same share of all words, rounded
down. -/
structure IsFair (sides : Nat) (action : EStateM Empty Seeded Nat) (words : Nat → Set UInt32) :
    Prop where
  atOnce : ∀ (s : Seeded) value, action s = .ok value (s.after 1) ↔ s.word 0 ∈ words value
  share : ∀ face, 1 ≤ face → face ≤ sides → (words face).ncard = UInt32.size / sides

/-- The first word whose product is not refused in the stretch of the face. -/
def firstWord (sides face : Nat) : Nat :=
  ((face - 1) * UInt32.size + UInt32.size % sides) ⌈/⌉ sides

private theorem refused_iff {sides : Nat} (h : sides ≤ UInt32.size) (word : UInt32) :
    Refused sides word ↔ word.toNat * sides % UInt32.size < UInt32.size % sides := by
  rw [Refused, Nat.mod_eq_sub_mod h]

/-- A word is for a face if its product is in the stretch of the face, behind what is refused. -/
theorem face?_eq_some_iff_between {sides face : Nat} (h : sides ≤ UInt32.size) (hface : 1 ≤ face)
    (word : UInt32) : face? sides word = some face ↔
      (face - 1) * UInt32.size + UInt32.size % sides ≤ word.toNat * sides ∧
        word.toNat * sides < (face - 1) * UInt32.size + UInt32.size := by
  have hproduct := Nat.div_add_mod' (word.toNat * sides) UInt32.size
  have hlow : word.toNat * sides % UInt32.size < UInt32.size := Nat.mod_lt _ (by decide)
  rw [face?_eq_some, refused_iff h, Nat.not_lt, scaled]
  constructor
  · rintro ⟨haccepted, rfl⟩
    rw [Nat.add_sub_cancel]
    omega
  · rintro ⟨hleast, hmost⟩
    have hupper : word.toNat * sides / UInt32.size = face - 1 := by
      rw [Nat.div_eq_iff (by decide)]
      omega
    rw [hupper] at hproduct
    omega

theorem firstWord_le_iff {sides face number : Nat} (hsides : 1 ≤ sides) :
    firstWord sides face ≤ number ↔
      (face - 1) * UInt32.size + UInt32.size % sides ≤ number * sides := by
  rw [firstWord, ceilDiv_le_iff_le_mul (Nat.zero_lt_of_lt hsides), Nat.mul_comm sides]

/-- Behind the products that are refused, the stretch of the face has room for its share of words
and no more. -/
theorem lt_firstWord_add_iff {sides face number : Nat} (hsides : 1 ≤ sides) :
    number < firstWord sides face + UInt32.size / sides ↔
      number * sides < (face - 1) * UInt32.size + UInt32.size := by
  have hstretch : (face - 1) * UInt32.size + UInt32.size =
      (face - 1) * UInt32.size + UInt32.size % sides + UInt32.size / sides * sides := by
    rw [Nat.add_assoc, Nat.mod_add_div']
  have hbehind : firstWord sides face + UInt32.size / sides ≤ number ↔
      (face - 1) * UInt32.size + UInt32.size ≤ number * sides := by
    rw [hstretch]
    -- fewer numbers than the share cannot be behind it, and there is no difference to take
    rcases Nat.lt_or_ge number (UInt32.size / sides) with hlt | hge
    · have hproducts : number * sides < UInt32.size / sides * sides :=
        Nat.mul_lt_mul_of_pos_right hlt hsides
      omega
    · have hproducts : UInt32.size / sides * sides ≤ number * sides :=
        Nat.mul_le_mul_right sides hge
      have hfewer := Nat.sub_mul number (UInt32.size / sides) sides
      rw [← Nat.le_sub_iff_add_le hge, firstWord_le_iff hsides]
      omega
  rw [← Nat.not_le, hbehind, Nat.not_le]

/-- The words for a face stand in a row. -/
theorem face?_eq_some_iff_mem {sides face : Nat} (hsides : 1 ≤ sides) (h : sides ≤ UInt32.size)
    (hface : 1 ≤ face) (word : UInt32) : face? sides word = some face ↔
      word.toNat ∈ Finset.Ico (firstWord sides face)
        (firstWord sides face + UInt32.size / sides) := by
  rw [face?_eq_some_iff_between h hface, Finset.mem_Ico, firstWord_le_iff hsides,
    lt_firstWord_add_iff hsides]

/-- All numbers of the row are words, since the stretch of the last face ends with the products of
words. -/
theorem lt_size_of_lt_firstWord_add {sides face number : Nat} (hsides : 1 ≤ sides)
    (hface : 1 ≤ face) (hmost : face ≤ sides)
    (h : number < firstWord sides face + UInt32.size / sides) : number < UInt32.size := by
  have hstretch : (face - 1) * UInt32.size + UInt32.size = face * UInt32.size := by
    rw [← Nat.succ_mul, Nat.succ_eq_add_one, Nat.sub_add_cancel hface]
  have hproduct : number * sides < UInt32.size * sides := by
    calc number * sides < face * UInt32.size := hstretch ▸ (lt_firstWord_add_iff hsides).mp h
      _ ≤ sides * UInt32.size := Nat.mul_le_mul_right _ hmost
      _ = UInt32.size * sides := Nat.mul_comm _ _
  exact Nat.lt_of_mul_lt_mul_right hproduct

theorem ncard_wordsDrawnAs {sides face : Nat} (hsides : 1 ≤ sides) (h : sides ≤ UInt32.size)
    (hface : 1 ≤ face) (hmost : face ≤ sides) :
    (wordsDrawnAs sides face).ncard = UInt32.size / sides := by
  have hrow : wordsDrawnAs sides face = Set.preimage UInt32.toNat
      (Finset.Ico (firstWord sides face) (firstWord sides face + UInt32.size / sides)) := by
    ext word
    rw [wordsDrawnAs, Nat.max_eq_left hsides]
    exact face?_eq_some_iff_mem hsides h hface word
  have hwords : (Finset.Ico (firstWord sides face) (firstWord sides face + UInt32.size / sides) :
      Set Nat) ⊆ Set.range UInt32.toNat := by
    intro number hnumber
    have hlt := lt_size_of_lt_firstWord_add hsides hface hmost (Finset.mem_Ico.mp hnumber).2
    exact ⟨UInt32.ofNatLT number hlt, UInt32.toNat_ofNatLT⟩
  rw [hrow, Set.ncard_preimage_of_injective_subset_range (fun _ _ => UInt32.toNat_inj.mp) hwords,
    Set.ncard_coe_finset, Nat.card_Ico, Nat.add_sub_cancel_left]

/-- What is drawn is a face of the die already. -/
theorem shown_of_drawn {sides value : Nat} (hsides : 1 ≤ sides) {word : UInt32}
    (h : face? (max sides 1) word = some value) : max 1 (min value sides) = value := by
  have hscaled := (face?_eq_some.mp h).2
  have hbounds := scaled_bounds (Nat.le_max_right sides 1) word
  omega

private theorem wordsShownAs_eq {sides : Nat} (hsides : 1 ≤ sides) (face : Nat) :
    wordsShownAs sides face = wordsDrawnAs sides face := by
  ext word
  constructor
  · rintro ⟨value, hvalue, rfl⟩
    rw [shown_of_drawn hsides hvalue]
    exact hvalue
  · intro hface
    exact ⟨face, hface, shown_of_drawn hsides hface⟩

private theorem state_after (s : Seeded) (n : Nat) :
    (s.after n).state = n.toUInt64 * increment + s.state := by
  induction n generalizing s with
  | zero => simp [after]
  | succ n ih =>
    have hsucc : (n + 1).toUInt64 = n.toUInt64 + 1 := UInt64.ofNat_add n 1
    rw [after, ih, hsucc]
    grind

/-- The source does not come back to a state in fewer steps than there are states. -/
theorem eq_zero_of_after_eq {s : Seeded} {n : Nat} (hn : n < UInt64.size) (h : s.after n = s) :
    n = 0 := by
  have hstate : n.toUInt64 * increment + s.state = s.state := by rw [← state_after, h]
  have hzero : n.toUInt64 * increment = 0 := by grind
  have hword : n.toUInt64 = 0 := by
    calc n.toUInt64 = n.toUInt64 * (increment * inverse) := by
          rw [increment_mul_inverse, UInt64.mul_one]
      _ = 0 := by rw [← UInt64.mul_assoc, hzero, UInt64.zero_mul]
  have hnumber := UInt64.toNat_inj.mpr hword
  rwa [Nat.toUInt64, UInt64.toNat_ofNat_of_lt' hn] at hnumber

/-- A draw that leaves the source one step on has taken one word, because it takes fewer words than
there are states. -/
theorem draw_atOnce (sides : Nat) (s : Seeded) (face : Nat) :
    Source.draw sides s = .ok face (s.after 1) ↔ s.word 0 ∈ wordsDrawnAs sides face := by
  obtain ⟨refused, drawn, s', hfew, hdraws, hdraw, -⟩ := exists_draw_eq_ok sides s
  rw [hdraw, wordsDrawnAs, Set.mem_ofPred_eq, face?_eq_some, EStateM.Result.ok.injEq]
  constructor
  · rintro ⟨rfl, hafter⟩
    have hback : (s.after 1).after refused = s.after 1 := hdraws.goesOn.symm.trans hafter
    obtain rfl : refused = 0 := eq_zero_of_after_eq hfew hback
    exact ⟨hdraws.accepts, hdraws.scales⟩
  · rintro ⟨haccepted, hface⟩
    obtain rfl : refused = 0 := by
      by_contra hrefused
      exact haccepted (hdraws.refuses 0 (Nat.pos_of_ne_zero hrefused))
    exact ⟨hdraws.scales.trans hface.symm, hdraws.goesOn⟩

theorem draw_isFair {sides : Nat} (hsides : 1 ≤ sides) (h : sides ≤ UInt32.size) :
    IsFair sides (Source.draw sides) (wordsDrawnAs sides) where
  atOnce s value := draw_atOnce sides s value
  share _ hface hmost := ncard_wordsDrawnAs hsides h hface hmost

theorem face_isFair (d : Die) : IsFair d.sides (Source.face d.sides) (wordsShownAs d.sides) := by
  have hbounds := d.sides_bounds
  have hsides : 1 ≤ d.sides := Nat.le_of_succ_le hbounds.1
  have hwords : wordsShownAs d.sides = wordsDrawnAs d.sides := funext (wordsShownAs_eq hsides)
  rw [hwords, face_eq_draw hsides]
  exact draw_isFair hsides (hbounds.2.trans (by decide))

/-- Words that are for values, one behind the other, are recorded as these values. -/
theorem drawn_of_words {sides : Nat} {values : List Nat} {s : Seeded}
    (h : ∀ n (hn : n < values.length), s.word n ∈ wordsShownAs sides values[n]) :
    Drawn sides s values (s.after values.length) := by
  induction values generalizing s with
  | nil => exact .nil s
  | cons value values ih =>
    obtain ⟨drawn, hdrawn, hshown⟩ := h 0 (Nat.succ_pos _)
    obtain rfl : max 1 (min drawn sides) = value := hshown
    have hrest : Drawn sides (s.after 1) values ((s.after 1).after values.length) :=
      ih fun n hn => h (n + 1) (Nat.succ_lt_succ hn)
    exact .cons ((draw_atOnce sides s drawn).mpr hdrawn) hrest

/-- Draws of faces are fair: among the words that are not refused, each face has its share of all
words, rounded down. This does not change when dice record what is drawn, and they record words
that are accepted one behind the other as the faces that these are for. -/
theorem draws_fair :
    (∀ sides, 1 ≤ sides → sides ≤ UInt32.size →
      IsFair sides (Source.draw sides) (wordsDrawnAs sides)) ∧
    ∀ d : Die, IsFair d.sides (Source.face d.sides) (wordsShownAs d.sides) ∧
      ∀ (s : Seeded) values, values.length = d.count →
        (∀ n (hn : n < values.length), s.word n ∈ wordsShownAs d.sides values[n]) →
          d.roll s = .ok ⟨d, values⟩ (s.after d.count) := by
  refine ⟨fun sides hsides h => draw_isFair hsides h, fun d => ⟨face_isFair d, ?_⟩⟩
  intro s values hlength hwords
  rw [← hlength]
  exact Die.roll_eq_ok.mpr ⟨values, hlength, drawn_of_words hwords, rfl⟩

/-- The word 0 is refused for 1000 sides, and two words in a row are for faces of a die. -/
theorem draws_fair_two_dice : ∃ d : Die, d.text = "2d6" ∧
    ((1 ≤ 1000 ∧ 1000 ≤ UInt32.size) ∧ (wordsDrawnAs 1000 1).ncard = 4294967 ∧
      0 ∉ wordsDrawnAs 1000 1) ∧
    ((⟨oneAhead⟩ : Seeded).word 0 ∈ wordsShownAs d.sides 1 ∧
      (⟨oneAhead⟩ : Seeded).word 1 ∈ wordsShownAs d.sides 2) ∧
    (wordsShownAs d.sides 2).ncard = 715827882 ∧
    d.roll (⟨oneAhead⟩ : Seeded) = .ok ⟨d, [1, 2]⟩ ((⟨oneAhead⟩ : Seeded).after 2) := by
  have hfirst : (⟨oneAhead⟩ : Seeded).word 0 ∈ wordsShownAs 6 1 := ⟨1, by decide, by decide⟩
  have hsecond : (⟨oneAhead⟩ : Seeded).word 1 ∈ wordsShownAs 6 2 := ⟨2, by decide, by decide⟩
  obtain ⟨hdrawn, hdice⟩ := draws_fair
  obtain ⟨hfair, hrolls⟩ := hdice ⟨2, 6, false, by decide, by decide⟩
  refine ⟨⟨2, 6, false, by decide, by decide⟩, by decide +kernel, ⟨by decide, ?_, ?_⟩,
    ⟨hfirst, hsecond⟩, hfair.share 2 (by decide) (by decide), ?_⟩
  · exact (hdrawn 1000 (by decide) (by decide)).share 1 (by decide) (by decide)
  · intro hzero
    exact absurd hzero (by decide : face? 1000 0 ≠ some 1)
  · refine hrolls _ [1, 2] rfl fun n hn => ?_
    match n, hn with
    | 0, _ => exact hfirst
    | 1, _ => exact hsecond

end Seeded

end DiceBot
