import MipsSource.Proofs.NumeralValues
import MipsSource.Register.Resolve
import MipsSource.Text.Lowercase

/-!
# Register names and small letters

A register is looked up by `Register.smallLetter`, which changes the capitals of ASCII and the
Kelvin sign only. The lower-case form of a text changes many more characters, and some by their
place, but none of those into ASCII alone. So both find the same names:

* `Text.lower_eq_iff`: a text has an ASCII text as its lower-case form if and only if small letters
  make it that text.
* `Register.ofName?_smallLetters`: the register that is looked up is the one whose name is the
  lower-case form of the text.
-/

set_option autoImplicit false

namespace MipsSource

namespace Text

open Register (smallLetter)

/-! ## Characters of ASCII -/

/-- The run of the capitals of ASCII; all others lie beyond. -/
def asciiCapitals : CaseRun :=
  ⟨0x41, 0x5a, 1, 0x61⟩

theorem findSome?_capitalRuns {c : Char} (hc : IsAscii c) :
    capitalRuns.findSome? (·.image? c.toNat) = asciiCapitals.image? c.toNat := by
  have htail : ∀ run ∈ capitalRuns.tail, 128 ≤ run.first := by decide +kernel
  have hnone : capitalRuns.tail.findSome? (·.image? c.toNat) = none := by
    rw [List.findSome?_eq_none_iff]
    intro run hrun
    have hfirst := htail run hrun
    unfold IsAscii at hc
    rw [CaseRun.image?, if_neg]
    simp only [Bool.and_eq_true, decide_eq_true_eq]
    omega
  have hcons : capitalRuns = asciiCapitals :: capitalRuns.tail := rfl
  rw [hcons, List.findSome?_cons, hnone]
  cases asciiCapitals.image? c.toNat <;> rfl

theorem smallChar_ascii {c : Char} (hc : IsAscii c) : smallChar c = smallLetter c := by
  have hall : ∀ n : Fin 128, smallLetter (Char.ofNat n.val) =
      ((asciiCapitals.image? (Char.ofNat n.val).toNat).map Char.ofNat).getD (Char.ofNat n.val) := by
    decide +kernel
  rw [smallChar, findSome?_capitalRuns hc, forall_ascii (P := fun c => smallLetter c =
    ((asciiCapitals.image? c.toNat).map Char.ofNat).getD c) hall hc]
  cases asciiCapitals.image? c.toNat <;> rfl

theorem smallLetter_of_not_isAscii {c : Char} (hc : ¬ IsAscii c) (hk : c ≠ '\u212a') :
    smallLetter c = c := by
  have hcode : 90 < c.toNat := by
    unfold IsAscii at hc
    omega
  rw [smallLetter, if_neg hk]
  delta Char.toLower
  rw [dif_neg]
  intro h
  have hle : c.toNat ≤ 90 := UInt32.le_iff_toNat_le.1 h.2
  omega

theorem toNat_ofNat {n : Nat} (h : n.isValidChar) : (Char.ofNat n).toNat = n := by
  rw [Char.ofNat, dif_pos h]
  rfl

/-- A run of capitals beyond ASCII has its small letters there too; the Kelvin sign is a run of its
own. -/
theorem capitalRun_image {run : CaseRun} (hrun : run ∈ capitalRuns) {code image : Nat}
    (h : run.image? code = some image) (hcode : 128 ≤ code) (hk : code ≠ 0x212a) :
    128 ≤ image ∧ image.isValidChar := by
  have hall : ∀ run ∈ capitalRuns, run.last < 128 ∨ (run.first = 0x212a ∧ run.last = 0x212a) ∨
      (128 ≤ run.image ∧ (run.image + (run.last - run.first) < 0xd800 ∨
        (0xdfff < run.image ∧ run.image + (run.last - run.first) < 0x110000))) := by
    decide +kernel
  unfold CaseRun.image? at h
  split at h
  · rename_i hin
    cases h
    simp only [Bool.and_eq_true, decide_eq_true_eq] at hin
    rcases hall run hrun with hlast | ⟨hfirst, hlast⟩ | ⟨himage, hvalid⟩
    · omega
    · omega
    · unfold Nat.isValidChar
      omega
  · cases h

/-- Beyond ASCII only the Kelvin sign has a small letter of ASCII. -/
theorem not_isAscii_smallChar {c : Char} (hc : ¬ IsAscii c) (hk : c ≠ '\u212a') :
    ¬ IsAscii (smallChar c) := by
  have hcode : 128 ≤ c.toNat := Nat.le_of_not_lt hc
  have hkelvin : c.toNat ≠ 0x212a := by
    intro h
    apply hk
    rw [← Char.ofNat_toNat c, h]
  unfold smallChar
  split
  · rename_i image himage
    obtain ⟨run, hrun, hi⟩ := List.exists_of_findSome?_eq_some himage
    obtain ⟨hbeyond, hvalid⟩ := capitalRun_image hrun hi hcode hkelvin
    unfold IsAscii
    rw [toNat_ofNat hvalid]
    omega
  · exact hc

/-! ## The lower-case form of a text -/

/-- The lower-case form of a character of ASCII, or of the Kelvin sign, does not depend on its
place, and is the letter by which registers are looked up. -/
theorem lowerChar_plain {c : Char} (h : IsAscii c ∨ c = '\u212a') (before after : List Char) :
    lowerChar before after c = [smallLetter c] := by
  rcases h with h | rfl
  · have hsigma : c ≠ 'Σ' := by rintro rfl; exact absurd h (by decide)
    have hdotted : c ≠ 'İ' := by rintro rfl; exact absurd h (by decide)
    rw [lowerChar, if_neg hsigma, if_neg hdotted, smallChar_ascii h]
  · have hsmall : smallChar '\u212a' = 'k' := by decide +kernel
    rw [lowerChar, if_neg (by decide), if_neg (by decide), hsmall]
    rfl

/-- The lower-case form of any other character has a character beyond ASCII. -/
theorem exists_mem_lowerChar {c : Char} (hc : ¬ IsAscii c) (hk : c ≠ '\u212a')
    (before after : List Char) : ∃ d ∈ lowerChar before after c, ¬ IsAscii d := by
  unfold lowerChar
  split
  · refine ⟨_, List.mem_singleton.2 rfl, ?_⟩
    split <;> decide
  · split
    · exact ⟨'\u0307', by simp, by decide⟩
    · exact ⟨_, List.mem_singleton.2 rfl, not_isAscii_smallChar hc hk⟩

/-- Whatever stands before it, a text becomes the same texts of ASCII in lower case and by small
letters. -/
theorem lowerAfter_eq_iff {name : List Char} (hname : ∀ c ∈ name, IsAscii c)
    (before text : List Char) : lowerAfter before text = name ↔ text.map smallLetter = name := by
  induction text generalizing before name with
  | nil => rfl
  | cons c rest ih =>
    rw [lowerAfter, List.map_cons]
    by_cases hplain : IsAscii c ∨ c = '\u212a'
    · rw [lowerChar_plain hplain, List.singleton_append]
      cases name with
      | nil => simp
      | cons d name =>
        have hrest : ∀ c ∈ name, IsAscii c := fun c hc => hname c (List.mem_cons_of_mem d hc)
        rw [List.cons.injEq, List.cons.injEq, ih hrest]
    · -- neither form can be a text of ASCII
      obtain ⟨hc, hk⟩ := not_or.1 hplain
      obtain ⟨d, hd, hdascii⟩ := exists_mem_lowerChar hc hk before rest
      constructor
      · rintro rfl
        exact absurd (hname d (List.mem_append_left _ hd)) hdascii
      · rintro rfl
        rw [smallLetter_of_not_isAscii hc hk] at hname
        exact absurd (hname c List.mem_cons_self) hc

theorem lower_eq_iff {name : List Char} (hname : ∀ c ∈ name, IsAscii c) (text : List Char) :
    lower text = name ↔ text.map smallLetter = name :=
  lowerAfter_eq_iff hname [] text

end Text

namespace Register

/-- The lower-case form of the text is the register's name. -/
def IsNamed (text : List Char) (r : Register) : Prop :=
  Text.lower text = r.name.toList

theorem isAscii_name (r : Register) : ∀ c ∈ r.name.toList, Text.IsAscii c := by
  have hall : ∀ i : Fin 32,
      ((Register.mk i).name.toList.all fun c => decide (Text.IsAscii c)) = true := by
    decide +kernel
  exact Lexeme.forall_mem_of_all (hall r.number)

theorem ofName?_eq_some_iff {name : String} {r : Register} :
    ofName? name = some r ↔ name = r.name := by
  constructor
  · intro h
    have hfound := List.find?_some h
    exact (eq_of_beq hfound).symm
  · rintro rfl
    exact ofName?_name r

/-- **The register that is looked up** is the one that the text names. -/
theorem ofName?_smallLetters {text : List Char} {r : Register} :
    ofName? (String.ofList (text.map smallLetter)) = some r ↔ IsNamed text r := by
  rw [ofName?_eq_some_iff, IsNamed, Text.lower_eq_iff (isAscii_name r), ← String.toList_inj,
    String.toList_ofList]

theorem ofName?_eq_none_iff {text : List Char} :
    ofName? (String.ofList (text.map smallLetter)) = none ↔ ∀ r, ¬ IsNamed text r := by
  rw [Option.eq_none_iff_forall_not_mem]
  exact forall_congr' fun r => not_congr ofName?_smallLetters

/-- A register's name is its own lower-case form. -/
theorem isNamed_name (r : Register) : IsNamed r.name.toList r := by
  rw [IsNamed, Text.lower_eq_iff (isAscii_name r), map_smallLetter_name]

end Register

end MipsSource
