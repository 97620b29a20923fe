import MipsSource.Proofs.Ensures
import Mathlib.Data.List.Forall2

/-!
# Two runs side by side

A `Coupling` says at which places two runs may stand at the same time and with which faults they may
end. `Coupled R V p q`: from coupled places, `p` and `q` both match, with values in `V` and at
coupled places again, or neither matches, or both fail with coupled faults. As for `Ensures` there
is a rule for each way to build a parser; `Respects R p` is the case of one parser and equal values.

* `Coupled.bind`, `Coupled.orElse`, `Coupled.choice`, `Coupled.sequence`.
* `Coupled.many`, `Coupled.sepBy1`: for parsers that read a character at least, so that a round
  moves in both runs or in none.
-/

set_option autoImplicit false

namespace MipsSource

/-- Which places and which faults of two runs belong together. -/
structure Coupling where
  place : Cursor → Cursor → Prop
  fault : Fault → Fault → Prop

/-- Coupled places do not lie beyond the end of their texts. -/
def Coupling.Within (R : Coupling) : Prop :=
  ∀ c d, R.place c d → c.past = 0 ∧ d.past = 0

/-- The replies of two runs belong together. -/
inductive Reply.Coupled {α β : Type} (R : Coupling) (V : α → β → Prop) : Reply α → Reply β → Prop
  | matched {v : α} {w : β} {c d : Cursor} :
      V v w → R.place c d → Coupled R V (.matched v c) (.matched w d)
  | unmatched : Coupled R V .unmatched .unmatched
  | failed {f g : Fault} : R.fault f g → Coupled R V (.failed f) (.failed g)

namespace Parser

variable {α β γ δ : Type} {R : Coupling}

/-- From coupled places the two parsers give replies that belong together. -/
def Coupled (R : Coupling) (V : α → β → Prop) (p : Parser α) (q : Parser β) : Prop :=
  ∀ c d, R.place c d → Reply.Coupled R V (p c) (q d)

/-- From coupled places the parser gives the same reply. -/
def Respects (R : Coupling) (p : Parser α) : Prop :=
  Coupled R Eq p p

/-- The three ways in which two replies can belong together. -/
theorem Coupled.reply_cases {V : α → β → Prop} {p : Parser α} {q : Parser β}
    (h : Coupled R V p q) {c d : Cursor} (hr : R.place c d) :
    (p c = .unmatched ∧ q d = .unmatched) ∨
      (∃ f g, p c = .failed f ∧ q d = .failed g ∧ R.fault f g) ∨
      ∃ v w c' d', p c = .matched v c' ∧ q d = .matched w d' ∧ V v w ∧ R.place c' d' := by
  have hreply := h c d hr
  generalize p c = x at hreply ⊢
  generalize q d = y at hreply ⊢
  cases hreply with
  | unmatched => exact .inl ⟨rfl, rfl⟩
  | failed hf => exact .inr (.inl ⟨_, _, rfl, rfl, hf⟩)
  | matched hv hr' => exact .inr (.inr ⟨_, _, _, _, rfl, rfl, hv, hr'⟩)

/-- The three ways in which a parser can give the same reply twice. -/
theorem Respects.reply_cases {p : Parser α} (hp : Respects R p) {c d : Cursor}
    (hr : R.place c d) :
    (p c = .unmatched ∧ p d = .unmatched) ∨
      (∃ f g, p c = .failed f ∧ p d = .failed g ∧ R.fault f g) ∨
      ∃ v c' d', p c = .matched v c' ∧ p d = .matched v d' ∧ R.place c' d' := by
  rcases Coupled.reply_cases hp hr with h | h | ⟨v, _, c', d', h1, h2, rfl, hr'⟩
  · exact .inl h
  · exact .inr (.inl h)
  · exact .inr (.inr ⟨v, c', d', h1, h2, hr'⟩)

/-! ## Single steps -/

theorem Coupled.mono {V W : α → β → Prop} {p : Parser α} {q : Parser β} (h : Coupled R V p q)
    (hVW : ∀ v w, V v w → W v w) : Coupled R W p q := by
  intro c d hr
  rcases h.reply_cases hr with ⟨h1, h2⟩ | ⟨f, g, h1, h2, hf⟩ | ⟨v, w, c', d', h1, h2, hv, hr'⟩
  · rw [h1, h2]
    exact .unmatched
  · rw [h1, h2]
    exact .failed hf
  · rw [h1, h2]
    exact .matched (hVW v w hv) hr'

theorem Coupled.pure {V : α → β → Prop} {v : α} {w : β} (h : V v w) :
    Coupled R V (Pure.pure v) (Pure.pure w) :=
  fun _ _ hr => .matched h hr

theorem Respects.pure (v : α) : Respects R (Pure.pure v : Parser α) :=
  Coupled.pure rfl

theorem Coupled.fail {V : α → β → Prop} {f g : Fault} (h : R.fault f g) :
    Coupled R V (Parser.fail f) (Parser.fail g) :=
  fun _ _ _ => .failed h

theorem Coupled.position : Coupled R R.place position position :=
  fun _ _ hr => .matched hr hr

theorem Respects.ofExcept {r : Except Fault α} (h : ∀ f, r = .error f → R.fault f f) :
    Respects R (ofExcept r) := by
  cases r with
  | ok v => exact .pure v
  | error f => exact Coupled.fail (h f rfl)

theorem Respects.ofOption (o : Option α) : Respects R (ofOption o) := by
  cases o with
  | some v => exact .pure v
  | none => exact fun _ _ _ => .unmatched

/-! ## Combinations -/

theorem Coupled.bind {V : α → β → Prop} {W : γ → δ → Prop} {p : Parser α} {q : Parser β}
    {next : α → Parser γ} {next' : β → Parser δ} (hp : Coupled R V p q)
    (hn : ∀ v w, V v w → Coupled R W (next v) (next' w)) :
    Coupled R W (p >>= next) (q >>= next') := by
  intro c d hr
  have h := hp c d hr
  rw [bind_apply, bind_apply]
  generalize p c = x at h
  generalize q d = y at h
  cases h with
  | matched hv hr' => exact hn _ _ hv _ _ hr'
  | unmatched => exact .unmatched
  | failed hf => exact .failed hf

theorem Respects.bind {p : Parser α} {next : α → Parser β} (hp : Respects R p)
    (hn : ∀ v, Respects R (next v)) : Respects R (p >>= next) := by
  refine Coupled.bind hp ?_
  rintro v _ rfl
  exact hn v

theorem Coupled.map {V : α → β → Prop} {W : γ → δ → Prop} {p : Parser α} {q : Parser β}
    {f : α → γ} {g : β → δ} (hp : Coupled R V p q) (h : ∀ v w, V v w → W (f v) (g w)) :
    Coupled R W (f <$> p) (g <$> q) :=
  hp.bind fun v w hv => .pure (h v w hv)

theorem Respects.map {p : Parser α} (f : α → β) (hp : Respects R p) : Respects R (f <$> p) :=
  hp.bind fun v => .pure (f v)

theorem Coupled.orElse {V : α → β → Prop} {p p' : Parser α} {q q' : Parser β}
    (hp : Coupled R V p q) (hq : Coupled R V p' q') :
    Coupled R V (orElse p p') (orElse q q') := by
  intro c d hr
  have h := hp c d hr
  unfold Parser.orElse
  generalize p c = x at h
  generalize q d = y at h
  cases h with
  | matched hv hr' => exact .matched hv hr'
  | unmatched => exact hq c d hr
  | failed hf => exact .failed hf

theorem Coupled.choice {V : α → α → Prop} : ∀ {ps : List (Parser α)},
    (∀ p ∈ ps, Coupled R V p p) → Coupled R V (choice ps) (choice ps)
  | [], _ => fun _ _ _ => .unmatched
  | _ :: _, h => Coupled.orElse (h _ List.mem_cons_self)
      (Coupled.choice fun p hp => h p (List.mem_cons_of_mem _ hp))

theorem Coupled.sequence {V : α → α → Prop} : ∀ {ps : List (Parser α)},
    (∀ p ∈ ps, Coupled R V p p) → Coupled R (List.Forall₂ V) (sequence ps) (sequence ps)
  | [], _ => .pure .nil
  | _ :: _, h => (h _ List.mem_cons_self).bind fun _ _ hv =>
      (Coupled.sequence fun p hp => h p (List.mem_cons_of_mem _ hp)).bind fun _ _ hvs =>
        .pure (.cons hv hvs)

theorem Coupled.withDefault {V : α → α → Prop} {p : Parser α} {default : α}
    (hp : Coupled R V p p) (hd : V default default) :
    Coupled R V (withDefault p default) (withDefault p default) :=
  hp.orElse (.pure hd)

theorem Coupled.optional {V : α → β → Prop} {p : Parser α} {q : Parser β} (hp : Coupled R V p q) :
    Coupled R (Option.Rel V) (optional p) (optional q) :=
  Coupled.orElse (hp.map fun _ _ => .some) (.pure .none)

theorem Respects.optional {p : Parser α} (hp : Respects R p) : Respects R (optional p) :=
  Coupled.withDefault (hp.map some) rfl

theorem Coupled.preceded {U : α → β → Prop} {V : γ → δ → Prop} {first : Parser α}
    {first' : Parser β} {second : Parser γ} {second' : Parser δ} (hp : Coupled R U first first')
    (hq : Coupled R V second second') :
    Coupled R V (preceded first second) (preceded first' second') :=
  hp.bind fun _ _ _ => hq

/-! ## Repetition -/

/-- The loop goes as many rounds in both runs, and ends in coupled places. -/
theorem collect_coupled (hR : R.Within) {V : α → β → Prop} {p : Parser α} {q : Parser β}
    (hp : p.Consumes) (hq : q.Consumes) (h : Coupled R V p q) {c d : Cursor} (hr : R.place c d) :
    (∃ vs ws c' d', collect p c = .ok (vs, c') ∧ collect q d = .ok (ws, d') ∧
        List.Forall₂ V vs ws ∧ R.place c' d') ∨
      ∃ f g, collect p c = .error f ∧ collect q d = .error g ∧ R.fault f g := by
  -- induction on what the first run has left to read
  induction hlen : c.rest.length using Nat.strongRecOn generalizing c d with
  | _ len ih =>
    obtain ⟨hc, hd⟩ := hR c d hr
    rcases h.reply_cases hr with ⟨h1, h2⟩ | ⟨f, g, h1, h2, hf⟩ | ⟨v, w, c', d', h1, h2, hv, hr'⟩
    · rw [collect_unmatched hp.forward h1, collect_unmatched hq.forward h2]
      exact .inl ⟨[], [], c, d, rfl, rfl, .nil, hr⟩
    · rw [collect_eq hp.forward, collect_eq hq.forward, h1, h2]
      exact .inr ⟨f, g, rfl, rfl, hf⟩
    · obtain ⟨n, hn, rfl, hpos⟩ := hp c v c' h1
      obtain ⟨m, hm, rfl, hpos'⟩ := hq d w d' h2
      have hlt : (c.advance n).rest.length < len := by
        rw [Cursor.advance_rest, List.length_drop]
        omega
      rw [collect_matched hp.forward hc h1 hpos hn, collect_matched hq.forward hd h2 hpos' hm]
      rcases ih _ hlt hr' rfl with ⟨vs, ws, c', d', h1, h2, hvs, h3⟩ | ⟨f, g, h1, h2, h3⟩
      · rw [h1, h2]
        exact .inl ⟨v :: vs, w :: ws, c', d', rfl, rfl, .cons hv hvs, h3⟩
      · rw [h1, h2]
        exact .inr ⟨f, g, rfl, rfl, h3⟩

theorem Coupled.many (hR : R.Within) {V : α → β → Prop} {p : Parser α} {q : Parser β}
    (hp : p.Consumes) (hq : q.Consumes) (h : Coupled R V p q) :
    Coupled R (List.Forall₂ V) (many p) (many q) := by
  intro c d hr
  unfold Parser.many
  rcases collect_coupled hR hp hq h hr with ⟨vs, ws, c', d', h1, h2, hvs, h3⟩ | ⟨f, g, h1, h2, h3⟩
  · rw [h1, h2]
    exact .matched hvs h3
  · rw [h1, h2]
    exact .failed h3

theorem Coupled.sepBy1 (hR : R.Within) {U : α → α → Prop} {V : β → β → Prop}
    {separator : Parser α} {item : Parser β} (hsep : separator.Consumes) (hitem : item.Forward)
    (hs : Coupled R U separator separator) (hi : Coupled R V item item) :
    Coupled R (List.Forall₂ V) (sepBy1 separator item) (sepBy1 separator item) := by
  have hnext : (Parser.preceded separator item).Consumes :=
    .preceded hsep hitem fun _ _ _ _ _ ha _ => by omega
  exact hi.bind fun _ _ hv => (Coupled.many hR hnext hnext (hs.preceded hi)).bind fun _ _ hvs =>
    .pure (.cons hv hvs)

end Parser

end MipsSource
