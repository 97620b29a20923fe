import MipsSource.Fault

/-!
# Who says where an error is

Whoever raises an error may know where it is, and so may everyone that it passes on its way out;
what each of them knows is a `Location`. An error keeps the line and the column of the first that
knows the line, and the file of the first that knows the file. A column without a line is kept only
from where the error was raised, and only as long as no line is known.

* `Location.firstWins`: what is known in the end, found by looking through all locations.
* `SourceError.locate_eq`: what one more location changes.
* `SourceError.locateAll_eq`: what any number of them changes, and what they do not.
-/

set_option autoImplicit false

namespace MipsSource

/-- What is known of where an error is. -/
structure Location where
  line : Option Int := none
  col : Option Int := none
  file : Option String := none
deriving DecidableEq, Repr

namespace Location

/-- What is known in the end: line and column together from the first location that has a line, or
else no line and the column of `raised`; and the first file. -/
def firstWins (raised : Location) (later : List Location) : Location :=
  let file := (raised :: later).findSome? (·.file)
  match (raised :: later).find? (·.line.isSome) with
  | some source => { line := source.line, col := source.col, file := file }
  | none => { line := none, col := raised.col, file := file }

theorem firstWins_nil (raised : Location) : firstWins raised [] = raised := by
  obtain ⟨line, col, file⟩ := raised
  cases line <;> cases file <;> rfl

/-- A location and the next one count as the first completed by the second. -/
theorem firstWins_cons (raised next : Location) (later : List Location) :
    firstWins raised (next :: later) = firstWins (firstWins raised [next]) later := by
  obtain ⟨line, col, file⟩ := raised
  obtain ⟨line', col', file'⟩ := next
  -- whether line and file are there settles what the search finds before `later`
  cases line <;> cases line' <;> cases file <;> cases file' <;> rfl

/-- A line that is known in the end has its column from the same location. -/
theorem firstWins_source {raised : Location} {later : List Location} {line : Int}
    (h : (firstWins raised later).line = some line) :
    ∃ source ∈ raised :: later, source.line = some line ∧
      source.col = (firstWins raised later).col := by
  unfold firstWins at h ⊢
  cases hfind : (raised :: later).find? (·.line.isSome) with
  | some source =>
    rw [hfind] at h
    exact ⟨source, List.mem_of_find?_eq_some hfind, h, rfl⟩
  | none =>
    rw [hfind] at h
    cases h

end Location

namespace SourceError

/-- Where the error is said to be. -/
def location (e : SourceError) : Location where
  line := e.line
  col := e.col
  file := e.file

/-- The same error at another location. -/
def withLocation (e : SourceError) (l : Location) : SourceError :=
  { e with line := l.line, col := l.col, file := l.file }

/-- The error after it was located by one after the other. -/
def locateAll (e : SourceError) (locations : List Location) : SourceError :=
  locations.foldl (fun e l => e.locate l.line l.col l.file) e

/-- What one more location changes. -/
theorem locate_eq (e : SourceError) (l : Location) :
    e.locate l.line l.col l.file = e.withLocation (.firstWins e.location [l]) := by
  obtain ⟨cause, hint, line, col, file⟩ := e
  obtain ⟨line', col', file'⟩ := l
  cases line <;> cases line' <;> cases file <;> cases file' <;> rfl

theorem locateAll_location (e : SourceError) (locations : List Location) :
    e.locateAll locations = e.withLocation (.firstWins e.location locations) := by
  induction locations generalizing e with
  | nil =>
    rw [Location.firstWins_nil]
    rfl
  | cons l locations ih =>
    calc e.locateAll (l :: locations)
        = (e.locate l.line l.col l.file).locateAll locations := rfl
      _ = (e.withLocation (.firstWins e.location [l])).locateAll locations := by rw [locate_eq]
      _ = e.withLocation (.firstWins (.firstWins e.location [l]) locations) := ih _
      _ = e.withLocation (.firstWins e.location (l :: locations)) := by
        rw [Location.firstWins_cons e.location l locations]

/-- **The first that knows wins**, however often an error is located and with whatever is known each
time. Nothing but its location changes, neither the cause and the hint nor what the diagnostic says
of them; and a line that is known has its column from the same location. -/
theorem locateAll_eq (e : SourceError) (locations : List Location) :
    e.locateAll locations = e.withLocation (.firstWins e.location locations) ∧
      (e.locateAll locations).cause = e.cause ∧ (e.locateAll locations).hint = e.hint ∧
      (e.locateAll locations).diagnostic =
        { e.diagnostic with
          line := (Location.firstWins e.location locations).line
          col := (Location.firstWins e.location locations).col
          file := (Location.firstWins e.location locations).file } ∧
      ∀ line, (e.locateAll locations).line = some line →
        ∃ source ∈ e.location :: locations, source.line = some line ∧
          source.col = (e.locateAll locations).col := by
  rw [locateAll_location]
  exact ⟨rfl, rfl, rfl, rfl, fun line h => Location.firstWins_source h⟩

/-- A column from where the error was raised, a file, a line without a column, and what comes too
late. -/
theorem locateAll_eq_mixed :
    ({ cause := .registerNumber 32, col := some 7 } : SourceError).locateAll
        [{ file := some "a.s" }, { line := some 3, file := some "b.s" },
         { line := some 4, col := some 9 }] =
      { cause := .registerNumber 32, line := some 3, col := none, file := some "a.s" } ∧
      ∃ source ∈ [({ col := some 7 } : Location), { file := some "a.s" },
          { line := some 3, file := some "b.s" }, { line := some 4, col := some 9 }],
        source.line = some 3 ∧ source.col = none := by
  obtain ⟨heq, -, -, -, hsource⟩ := locateAll_eq
    { cause := .registerNumber 32, col := some 7 }
    [{ file := some "a.s" }, { line := some 3, file := some "b.s" },
      { line := some 4, col := some 9 }]
  exact ⟨heq, hsource 3 rfl⟩

end SourceError

end MipsSource
