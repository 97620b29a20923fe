import MipsSource.Proofs.Ensures

/-!
# What a failure blames

`p.Blames E`: every failure of `p` is about a place that lies ahead, within the text, and `E`
relates that place and the fault. As for `Ensures` there is a rule for each way to build a parser; a
parser that never fails blames nothing.

* `Blames.bind`: reading in sequence; `Blames.bind_of`: a failure of the second parser may be about
  a place that the first has passed.
* `Blames.many`, `Blames.sepBy1`: repetition.
-/

set_option autoImplicit false

namespace MipsSource.Parser

variable {α β : Type} {E : Cursor → Fault → Prop}

/-- The fault is about a place within the text from `c` on, and `E` says how. -/
def BlamesFrom (E : Cursor → Fault → Prop) (c : Cursor) (fault : Fault) : Prop :=
  ∃ n, n ≤ c.rest.length ∧ E (c.advance n) fault

/-- Every failure of `p` is about a place within the text ahead, and `E` says how. -/
def Blames (p : Parser α) (E : Cursor → Fault → Prop) : Prop :=
  ∀ c fault, p c = .failed fault → BlamesFrom E c fault

theorem BlamesFrom.here {c : Cursor} {fault : Fault} (h : E c fault) : BlamesFrom E c fault :=
  ⟨0, Nat.zero_le _, h⟩

/-- A place ahead of a place ahead lies ahead. -/
theorem BlamesFrom.of_advance {c : Cursor} {a : Nat} {fault : Fault} (ha : a ≤ c.rest.length)
    (h : BlamesFrom E (c.advance a) fault) : BlamesFrom E c fault := by
  obtain ⟨n, hn, he⟩ := h
  rw [Cursor.advance_rest, List.length_drop] at hn
  rw [Cursor.advance_advance] at he
  exact ⟨a + n, by omega, he⟩

theorem Blames.mono {E' : Cursor → Fault → Prop} {p : Parser α} (hp : p.Blames E)
    (h : ∀ d fault, E d fault → E' d fault) : p.Blames E' := by
  intro c fault hc
  obtain ⟨n, hn, he⟩ := hp c fault hc
  exact ⟨n, hn, h _ _ he⟩

/-! ## Single steps -/

theorem Blames.pure (v : α) : (Pure.pure v : Parser α).Blames E := by
  intro c fault h
  cases h

theorem Blames.noMatch : (noMatch : Parser α).Blames E := by
  intro c fault h
  cases h

theorem Blames.position : position.Blames E := by
  intro c fault h
  cases h

theorem Blames.ofOption (o : Option α) : (ofOption o).Blames E := by
  cases o with
  | some v => exact .pure v
  | none => exact .noMatch

theorem Blames.tag (word : String) : (tag word).Blames E := by
  intro c fault h
  unfold Parser.tag at h
  split at h <;> cases h

theorem Blames.scan (scanner : List Char → Option (α × Nat)) : (scan scanner).Blames E := by
  intro c fault h
  unfold Parser.scan at h
  split at h <;> cases h

theorem ofExcept_failed {r : Except Fault α} {c : Cursor} {fault : Fault}
    (h : ofExcept r c = .failed fault) : r = .error fault := by
  cases r with
  | ok v => cases h
  | error f => cases h; rfl

/-! ## Combinations -/

theorem bind_eq_failed {p : Parser α} {next : α → Parser β} {c : Cursor} {fault : Fault}
    (h : (p >>= next) c = .failed fault) :
    p c = .failed fault ∨ ∃ v mid, p c = .matched v mid ∧ next v mid = .failed fault := by
  rw [bind_apply] at h
  cases hp : p c with
  | matched v mid => rw [hp] at h; exact .inr ⟨v, mid, rfl, h⟩
  | unmatched => rw [hp] at h; cases h
  | failed f => rw [hp] at h; cases h; exact .inl rfl

/-- Reading in sequence, where a failure of the second parser is judged from where the first
started, with what the first ensures. -/
theorem Blames.bind_of {p : Parser α} {next : α → Parser β} {Q : Cursor → α → Nat → Prop}
    (hq : p.Ensures Q) (hp : p.Blames E)
    (hn : ∀ c v a fault, a ≤ c.rest.length → Q c v a → next v (c.advance a) = .failed fault →
      BlamesFrom E c fault) : (p >>= next).Blames E := by
  intro c fault h
  rcases bind_eq_failed h with h | ⟨v, mid, h1, h2⟩
  · exact hp c fault h
  · obtain ⟨a, ha, rfl, hv⟩ := hq c v mid h1
    exact hn c v a fault ha hv h2

theorem Blames.bind {p : Parser α} {next : α → Parser β} (hf : p.Forward) (hp : p.Blames E)
    (hn : ∀ v, (next v).Blames E) : (p >>= next).Blames E :=
  .bind_of hf hp fun _ v _ fault ha _ h => .of_advance ha (hn v _ fault h)

theorem Blames.map {p : Parser α} (f : α → β) (hp : p.Blames E) : (f <$> p).Blames E := by
  intro c fault h
  rw [map_apply] at h
  cases hc : p c with
  | matched v mid => rw [hc] at h; cases h
  | unmatched => rw [hc] at h; cases h
  | failed g => rw [hc] at h; cases h; exact hp c fault hc

theorem Blames.orElse {p q : Parser α} (hp : p.Blames E) (hq : q.Blames E) :
    (orElse p q).Blames E := by
  intro c fault h
  unfold Parser.orElse at h
  cases hc : p c with
  | matched v mid => rw [hc] at h; cases h
  | unmatched => rw [hc] at h; exact hq c fault h
  | failed g => rw [hc] at h; cases h; exact hp c fault hc

theorem Blames.choice : ∀ {ps : List (Parser α)}, (∀ p ∈ ps, p.Blames E) → (choice ps).Blames E
  | [], _ => .noMatch
  | _ :: _, h =>
    .orElse (h _ List.mem_cons_self) (.choice fun p hp => h p (List.mem_cons_of_mem _ hp))

theorem Blames.withDefault {p : Parser α} (default : α) (hp : p.Blames E) :
    (withDefault p default).Blames E :=
  .orElse hp (.pure default)

theorem Blames.optional {p : Parser α} (hp : p.Blames E) : (optional p).Blames E :=
  .withDefault none (hp.map some)

theorem Blames.preceded {first : Parser α} {second : Parser β} (hf : first.Forward)
    (hp : first.Blames E) (hq : second.Blames E) : (preceded first second).Blames E :=
  .bind hf hp fun _ => hq

theorem Blames.sequence {ps : List (Parser α)} (h : ∀ p ∈ ps, p.Forward ∧ p.Blames E) :
    (sequence ps).Blames E := by
  induction ps with
  | nil => exact .pure []
  | cons p ps ih =>
    have htail : ∀ q ∈ ps, q.Forward ∧ q.Blames E := fun q hq => h q (List.mem_cons_of_mem _ hq)
    obtain ⟨hf, hp⟩ := h p List.mem_cons_self
    exact .bind hf hp fun v =>
      .bind (Ensures.sequence fun q hq => (htail q hq).1) (ih htail) fun vs => .pure (v :: vs)

/-! ## Repetition -/

theorem Loop.blames {p : Parser α} (hf : p.Forward) (hp : p.Blames E) {c : Cursor} {fault : Fault}
    {r : Except Fault (List α × Cursor)} (h : Loop p c r) (hr : r = .error fault) :
    BlamesFrom E c fault := by
  induction h with
  | unmatched _ | still _ _ => cases hr
  | failed hm =>
    cases hr
    exact hp _ _ hm
  | @round c after v r hm _ _ ih =>
    cases r with
    | ok result => cases hr
    | error g =>
      -- a later round fails, ahead of where this one stopped
      obtain ⟨a, ha, rfl, -⟩ := hf c v after hm
      exact .of_advance ha (ih hr)

theorem collect_blames {p : Parser α} (hf : p.Forward) (hp : p.Blames E) {c : Cursor}
    {fault : Fault} (h : collect p c = .error fault) : BlamesFrom E c fault :=
  (hf.loop c).blames hf hp h

theorem Blames.many {p : Parser α} (hf : p.Forward) (hp : p.Blames E) : (many p).Blames E := by
  intro c fault h
  unfold Parser.many at h
  cases hc : collect p c with
  | ok result => rw [hc] at h; cases h
  | error g => rw [hc] at h; cases h; exact collect_blames hf hp hc

theorem Blames.sepBy1 {separator : Parser α} {item : Parser β} (hsf : separator.Forward)
    (hif : item.Forward) (hs : separator.Blames E) (hi : item.Blames E) :
    (sepBy1 separator item).Blames E := by
  have hforward : (Parser.preceded separator item).Forward :=
    .preceded hsf hif fun _ _ _ _ _ _ _ => trivial
  have hnext : (Parser.preceded separator item).Blames E := .preceded hsf hs hi
  exact .bind hif hi fun _ =>
    .bind (Ensures.many hforward).forward (.many hforward hnext) fun _ => .pure _

end MipsSource.Parser
