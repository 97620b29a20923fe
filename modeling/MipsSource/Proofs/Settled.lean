import MipsSource.Binary64.Basic
import MipsSource.Expression
import MipsSource.Numeral.Read
import MipsSource.Register.Resolve

/-!
# Computations that settle

A loop over a parser that goes on for too many rounds is given up with a fault of its own,
`Fault.endless`. What is computed without such a loop settles: it has a value, or another fault.

* `Fault.ofError_ne_endless`: an error in the source text is another fault.
* `Numeral.settled_readLiteral`, `Binary64.settled_ofInt`, `Register.settled_resolve`: numbers and
  registers.
* `ValueMap.settled_apply`: the functions that an expression can apply.
-/

set_option autoImplicit false

namespace MipsSource

variable {α β : Type}

/-- The result is a value, or a fault that no endless loop is behind. -/
def Settled (r : Except Fault α) : Prop :=
  ∀ fault, r = .error fault → fault ≠ .endless

theorem Settled.ok (v : α) : Settled (.ok v) := by
  rintro _ ⟨⟩

theorem Settled.error {fault : Fault} (h : fault ≠ .endless) :
    Settled (.error fault : Except Fault α) := by
  rintro _ ⟨⟩
  exact h

theorem Settled.map {r : Except Fault α} (h : Settled r) (f : α → β) : Settled (r.map f) := by
  cases r with
  | ok v => exact .ok (f v)
  | error fault => exact .error (h fault rfl)

theorem Settled.bind {r : Except Fault α} {next : α → Except Fault β} (h : Settled r)
    (hnext : ∀ v, Settled (next v)) : Settled (r >>= next) := by
  cases r with
  | ok v => exact hnext v
  | error fault => exact .error (h fault rfl)

/-! ## Errors -/

namespace Fault

theorem ofError_ne_endless (e : SourceError) : ofError e ≠ .endless := by
  unfold ofError
  split <;> nofun

theorem locate_ne_endless {fault : Fault} (h : fault ≠ .endless) {line col : Option Int}
    {file : Option String} : fault.locate line col file ≠ .endless := by
  unfold locate
  split
  · nofun
  · exact h

end Fault

/-! ## Numbers -/

namespace Numeral

theorem settled_readDigits (base : Nat) (text : List Char) : Settled (readDigits base text) := by
  unfold readDigits
  split
  · exact .error nofun
  · split
    · exact .error nofun
    · exact .ok _

theorem settled_readDecimal (text : List Char) : Settled (readDecimal text) :=
  (settled_readDigits 10 _).map _

theorem settled_readMarked (text : List Char) : Settled (readMarked text) := by
  unfold readMarked
  split
  · split
    · exact (settled_readDigits _ _).map _
    · exact .error nofun
  · exact .error nofun

theorem settled_readLiteral (text : List Char) : Settled (readLiteral text) := by
  simp only [readLiteral]
  split
  · exact settled_readMarked _
  · exact settled_readDecimal _

end Numeral

theorem Binary64.settled_ofInt (i : Int) : Settled (ofInt i) := by
  unfold ofInt
  split
  · exact .ok _
  · exact .error nofun

/-! ## Registers -/

namespace Register

theorem settled_int32? (text : List Char) : Settled (int32? text) := by
  unfold int32?
  split
  · exact (Numeral.settled_readDecimal text).map _
  · exact .ok none

theorem settled_ofNumber (n : Int) : Settled (ofNumber n) := by
  unfold ofNumber
  split
  · exact .ok _
  · exact .error (Fault.ofError_ne_endless _)

theorem settled_unresolved (text : List Char) : Settled (unresolved text) := by
  have hunknown : Settled (.error (.ofCause (.unknownRegister (String.ofList text))) :
      Except Fault Register) := .error (Fault.ofError_ne_endless _)
  unfold unresolved
  split
  · simp only
    split
    · refine (settled_int32? _).bind fun found => ?_
      cases found with
      | some index => exact .error (Fault.ofError_ne_endless _)
      | none => exact hunknown
    · exact hunknown
  · exact hunknown

theorem settled_resolve (text : List Char) : Settled (resolve text) := by
  refine (settled_int32? text).bind fun found => ?_
  cases found with
  | some n => exact settled_ofNumber n
  | none =>
    simp only
    split
    · exact .ok _
    · exact settled_unresolved text

end Register

/-! ## Values -/

namespace Value

theorem settled_length (v : Value) : Settled v.length := by
  unfold length
  split <;> first | exact .ok _ | exact .error nofun

theorem settled_first (v : Value) : Settled v.first := by
  unfold first
  split
  · split <;> first | exact .ok _ | exact .error nofun
  · split <;> first | exact .ok _ | exact .error nofun
  · split <;> first | exact .ok _ | exact .error nofun
  · exact .error nofun

end Value

theorem ValueMap.settled_apply (function : ValueMap) (v : Value) : Settled (function.apply v) := by
  cases function with
  | length => exact (v.settled_length.bind fun n => .ok (n : Int)).map _
  | first => exact v.settled_first
  | wrap => exact .ok _

end MipsSource
