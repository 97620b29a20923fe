import MipsSource.Parser.Basic
import MipsSource.Proofs.Place

/-!
# What a match ensures

`p.Ensures Q`: every match of `p` ends at a place that lies ahead, within the text, and `Q` relates
the place where it starts, the value and the number of characters read. There is one rule for each
way to build a parser, so that a parser's specification follows its definition.

* `Ensures.bind`, `Ensures.orElse`, `Ensures.many`, `Ensures.sepBy1`: the rules that combine.
* `Loop.of_collectWithin`: a loop whose rounds use something up comes to what the same loop comes to
  without a bound (`Loop`), and to nothing else.
* `collect_eq`: the loop behind `many` for parsers that only move on; its bound is never reached.
* `Ensures.chain`: the rounds of a loop follow each other (`Chain`).
-/

set_option autoImplicit false

namespace MipsSource.Parser

variable {α β : Type}

/-- Every match of `p` moves on within the text, by a number of characters that `Q` relates to the
place where reading starts and to the value. -/
def Ensures (p : Parser α) (Q : Cursor → α → Nat → Prop) : Prop :=
  ∀ c v after, p c = .matched v after → ∃ n, n ≤ c.rest.length ∧ after = c.advance n ∧ Q c v n

/-- Every match of `p` moves on within the text. -/
def Forward (p : Parser α) : Prop :=
  p.Ensures fun _ _ _ => True

/-- Every match of `p` reads a character at least. -/
def Consumes (p : Parser α) : Prop :=
  p.Ensures fun _ _ n => 0 < n

/-! ## Equations -/

theorem bind_eq_matched {p : Parser α} {next : α → Parser β} {c after : Cursor} {w : β} :
    (p >>= next) c = .matched w after ↔
      ∃ v mid, p c = .matched v mid ∧ next v mid = .matched w after := by
  rw [bind_apply]
  cases p c with
  | matched v mid =>
    refine ⟨fun h => ⟨v, mid, rfl, h⟩, ?_⟩
    intro h
    obtain ⟨_, _, hv, h⟩ := h
    cases hv
    exact h
  | unmatched => simp
  | failed fault => simp

theorem map_apply (f : α → β) (p : Parser α) (c : Cursor) :
    (f <$> p) c =
      match p c with
      | .matched v after => .matched (f v) after
      | .unmatched => .unmatched
      | .failed fault => .failed fault := rfl

theorem map_matched {f : α → β} {p : Parser α} {c after : Cursor} {v : α}
    (h : p c = .matched v after) : (f <$> p) c = .matched (f v) after := by
  rw [map_apply, h]

theorem map_unmatched {f : α → β} {p : Parser α} {c : Cursor} (h : p c = .unmatched) :
    (f <$> p) c = .unmatched := by
  rw [map_apply, h]

theorem orElse_matched {p q : Parser α} {c after : Cursor} {v : α} (h : p c = .matched v after) :
    orElse p q c = .matched v after := by
  rw [orElse, h]

theorem orElse_unmatched {p q : Parser α} {c : Cursor} (h : p c = .unmatched) :
    orElse p q c = q c := by
  rw [orElse, h]

theorem orElse_eq_matched {p q : Parser α} {c after : Cursor} {v : α}
    (h : orElse p q c = .matched v after) :
    p c = .matched v after ∨ (p c = .unmatched ∧ q c = .matched v after) := by
  unfold orElse at h
  cases hp : p c with
  | matched w mid => rw [hp] at h; exact .inl h
  | unmatched => rw [hp] at h; exact .inr ⟨rfl, h⟩
  | failed fault => rw [hp] at h; cases h

/-! ## Rules -/

theorem Ensures.mono {p : Parser α} {Q R : Cursor → α → Nat → Prop} (hp : p.Ensures Q)
    (h : ∀ c v n, Q c v n → R c v n) : p.Ensures R := by
  intro c v after hm
  obtain ⟨n, hn, ha, hq⟩ := hp c v after hm
  exact ⟨n, hn, ha, h c v n hq⟩

theorem Ensures.forward {p : Parser α} {Q : Cursor → α → Nat → Prop} (hp : p.Ensures Q) :
    p.Forward :=
  hp.mono fun _ _ _ _ => trivial

/-- What is left to read tells how much was read, so two specifications speak of the same piece. -/
theorem Ensures.and {p : Parser α} {Q R : Cursor → α → Nat → Prop} (hq : p.Ensures Q)
    (hr : p.Ensures R) : p.Ensures fun c v n => Q c v n ∧ R c v n := by
  intro c v after h
  obtain ⟨n, hn, rfl, hQ⟩ := hq c v after h
  obtain ⟨m, hm, heq, hR⟩ := hr c v _ h
  have hlen := congrArg (·.rest.length) heq
  simp only [Cursor.advance_rest, List.length_drop] at hlen
  obtain rfl : n = m := by omega
  exact ⟨n, hn, rfl, hQ, hR⟩

/-- A match is itself part of what it ensures. -/
theorem Ensures.self {p : Parser α} {Q : Cursor → α → Nat → Prop} (hp : p.Ensures Q) :
    p.Ensures fun c v n => Q c v n ∧ p c = .matched v (c.advance n) := by
  intro c v after h
  obtain ⟨n, hn, rfl, hq⟩ := hp c v after h
  exact ⟨n, hn, rfl, hq, h⟩

theorem Ensures.pure (v : α) : (Pure.pure v : Parser α).Ensures fun _ w n => w = v ∧ n = 0 := by
  intro c w after h
  cases h
  exact ⟨0, Nat.zero_le _, rfl, rfl, rfl⟩

theorem Ensures.fail {Q : Cursor → α → Nat → Prop} (fault : Fault) :
    (Parser.fail fault : Parser α).Ensures Q := by
  intro c v after h
  cases h

theorem Ensures.noMatch {Q : Cursor → α → Nat → Prop} : (noMatch : Parser α).Ensures Q := by
  intro c v after h
  cases h

theorem Ensures.ofExcept (r : Except Fault α) :
    (ofExcept r).Ensures fun _ v n => r = .ok v ∧ n = 0 := by
  cases r with
  | ok v => exact (Ensures.pure v).mono fun _ w _ h => ⟨by rw [h.1], h.2⟩
  | error fault => exact .fail fault

theorem Ensures.ofOption (o : Option α) :
    (ofOption o).Ensures fun _ v n => o = some v ∧ n = 0 := by
  cases o with
  | some v => exact (Ensures.pure v).mono fun _ w _ h => ⟨by rw [h.1], h.2⟩
  | none => exact .noMatch

theorem Ensures.position : position.Ensures fun c v n => v = c ∧ n = 0 := by
  intro c v after h
  cases h
  exact ⟨0, Nat.zero_le _, rfl, rfl, rfl⟩

/-- Reading in sequence, where the second parser may rely on what the first ensures. -/
theorem Ensures.bind_of {p : Parser α} {next : α → Parser β} {Q : Cursor → α → Nat → Prop}
    {R : α → Cursor → β → Nat → Prop} {S : Cursor → β → Nat → Prop} (hp : p.Ensures Q)
    (hn : ∀ c v a, Q c v a → (next v).Ensures (R v))
    (h : ∀ c v a w b, Q c v a → R v (c.advance a) w b → S c w (a + b)) :
    (p >>= next).Ensures S := by
  intro c w after hm
  obtain ⟨v, mid, h1, h2⟩ := bind_eq_matched.1 hm
  obtain ⟨a, ha, rfl, hq⟩ := hp c v mid h1
  obtain ⟨b, hb, rfl, hr⟩ := hn c v a hq _ w after h2
  rw [Cursor.advance_rest, List.length_drop] at hb
  refine ⟨a + b, by omega, ?_, h c v a w b hq hr⟩
  rw [Cursor.advance_advance]

theorem Ensures.bind {p : Parser α} {next : α → Parser β} {Q : Cursor → α → Nat → Prop}
    {R : α → Cursor → β → Nat → Prop} {S : Cursor → β → Nat → Prop} (hp : p.Ensures Q)
    (hn : ∀ v, (next v).Ensures (R v))
    (h : ∀ c v a w b, Q c v a → R v (c.advance a) w b → S c w (a + b)) :
    (p >>= next).Ensures S :=
  .bind_of hp (fun _ v _ _ => hn v) h

theorem Ensures.map {p : Parser α} {f : α → β} {Q : Cursor → α → Nat → Prop}
    {S : Cursor → β → Nat → Prop} (hp : p.Ensures Q) (h : ∀ c v n, Q c v n → S c (f v) n) :
    (f <$> p).Ensures S := by
  intro c w after hm
  rw [map_apply] at hm
  cases hc : p c with
  | matched v mid =>
    rw [hc] at hm
    cases hm
    obtain ⟨n, hn, ha, hq⟩ := hp c v after hc
    exact ⟨n, hn, ha, h c v n hq⟩
  | unmatched => rw [hc] at hm; cases hm
  | failed fault => rw [hc] at hm; cases hm

theorem Ensures.orElse {p q : Parser α} {Q : Cursor → α → Nat → Prop} (hp : p.Ensures Q)
    (hq : q.Ensures Q) : (orElse p q).Ensures Q := by
  intro c v after h
  rcases orElse_eq_matched h with h | ⟨-, h⟩
  · exact hp c v after h
  · exact hq c v after h

theorem Ensures.choice {Q : Cursor → α → Nat → Prop} :
    ∀ {ps : List (Parser α)}, (∀ p ∈ ps, p.Ensures Q) → (choice ps).Ensures Q
  | [], _ => .noMatch
  | _ :: _, h =>
    .orElse (h _ List.mem_cons_self) (.choice fun p hp => h p (List.mem_cons_of_mem _ hp))

theorem Ensures.withDefault {p : Parser α} {Q : Cursor → α → Nat → Prop} (default : α)
    (hp : p.Ensures Q) :
    (withDefault p default).Ensures fun c v n => Q c v n ∨ (v = default ∧ n = 0) :=
  .orElse (hp.mono fun _ _ _ => .inl) ((Ensures.pure default).mono fun _ _ _ => .inr)

theorem Ensures.optional {p : Parser α} {Q : Cursor → α → Nat → Prop} (hp : p.Ensures Q) :
    (optional p).Ensures fun c o n => (∃ v, o = some v ∧ Q c v n) ∨ (o = none ∧ n = 0) :=
  .withDefault none (hp.map fun _ v _ hq => ⟨v, rfl, hq⟩)

theorem Ensures.preceded {first : Parser α} {second : Parser β} {Q : Cursor → α → Nat → Prop}
    {R S : Cursor → β → Nat → Prop} (hp : first.Ensures Q) (hq : second.Ensures R)
    (h : ∀ c v a w b, Q c v a → R (c.advance a) w b → S c w (a + b)) :
    (preceded first second).Ensures S :=
  .bind hp (fun _ => hq) h

/-- What the second parser ensures of its value, both together ensure. -/
theorem Ensures.preceded_value {first : Parser α} {second : Parser β} {P : β → Prop}
    (hp : first.Forward) (hq : second.Ensures fun _ v _ => P v) :
    (Parser.preceded first second).Ensures fun _ v _ => P v :=
  .preceded hp hq fun _ _ _ _ _ _ h => h

theorem Ensures.scan {scanner : List Char → Option (α × Nat)} {Q : Cursor → α → Nat → Prop}
    (h : ∀ c v n, scanner c.rest = some (v, n) → n ≤ c.rest.length ∧ Q c v n) :
    (scan scanner).Ensures Q := by
  intro c v after hm
  unfold Parser.scan at hm
  split at hm
  · rename_i w n hs
    cases hm
    exact ⟨n, (h c v n hs).1, rfl, (h c v n hs).2⟩
  · cases hm

theorem Ensures.tag (word : String) :
    (tag word).Ensures fun c v n => v = word ∧ n = word.toList.length ∧ word.toList <+: c.rest := by
  intro c v after h
  unfold Parser.tag at h
  split at h
  · rename_i hs
    cases h
    simp only [Cursor.startsWith, Bool.and_eq_true] at hs
    have hp := List.isPrefixOf_iff_prefix.1 hs.2
    exact ⟨_, hp.length_le, rfl, rfl, rfl, hp⟩
  · cases h

theorem Ensures.sequence {ps : List (Parser α)} (h : ∀ p ∈ ps, p.Forward) :
    (sequence ps).Forward := by
  induction ps with
  | nil => exact (Ensures.pure []).forward
  | cons p ps ih =>
    have htail := ih fun q hq => h q (List.mem_cons_of_mem _ hq)
    have hrest : ∀ v, (Parser.sequence ps >>= fun vs => Pure.pure (v :: vs)).Forward := fun v =>
      .bind htail (fun vs => .pure (v :: vs)) fun _ _ _ _ _ _ _ => trivial
    exact .bind (h p List.mem_cons_self) hrest fun _ _ _ _ _ _ _ => trivial

/-- All the parsers together read a character, if one of them does. -/
theorem Consumes.sequence {ps : List (Parser α)} (h : ∀ p ∈ ps, p.Forward)
    (hread : ∃ p ∈ ps, p.Consumes) : (sequence ps).Consumes := by
  induction ps with
  | nil =>
    obtain ⟨p, hp, -⟩ := hread
    cases hp
  | cons p ps ih =>
    have htail : ∀ q ∈ ps, q.Forward := fun q hq => h q (List.mem_cons_of_mem _ hq)
    obtain ⟨q, hq, hcons⟩ := hread
    rcases List.mem_cons.1 hq with rfl | hq
    · refine .bind hcons (fun v => Ensures.forward (.bind (Ensures.sequence htail)
        (fun vs => .pure (v :: vs)) (S := fun _ _ _ => True) fun _ _ _ _ _ _ _ => trivial)) ?_
      intro c v a vs b ha _
      omega
    · refine .bind (h p List.mem_cons_self) (R := fun _ _ _ n => 0 < n) (fun v => ?_) ?_
      · refine .bind (ih htail ⟨q, hq, hcons⟩) (fun vs => .pure (v :: vs)) ?_
        intro c vs a ws b ha _
        omega
      · intro c v a vs b _ hb
        omega

/-! ## The loop -/

/-- What repeating `p` from a place on comes to: the values of the rounds, one after the other as
long as a round matches and moves, and the place after the last of them; or the fault of the round
that fails. Nothing bounds the rounds. -/
inductive Loop (p : Parser α) : Cursor → Except Fault (List α × Cursor) → Prop
  | unmatched {c : Cursor} : p c = .unmatched → Loop p c (.ok ([], c))
  | still {c after : Cursor} {v : α} :
      p c = .matched v after → after.offset = c.offset → Loop p c (.ok ([], c))
  | failed {c : Cursor} {fault : Fault} : p c = .failed fault → Loop p c (.error fault)
  | round {c after : Cursor} {v : α} {r : Except Fault (List α × Cursor)} :
      p c = .matched v after → after.offset ≠ c.offset → Loop p after r →
      Loop p c (r.map fun (vs, last) => (v :: vs, last))

section
variable {p : Parser α}

/-- A repetition comes to one result. -/
theorem Loop.unique {c : Cursor} {r r' : Except Fault (List α × Cursor)} (h : Loop p c r)
    (h' : Loop p c r') : r = r' := by
  induction h generalizing r' with
  | unmatched hm | failed hm => cases h' <;> simp_all
  | still hm hstill =>
    cases h' with
    | unmatched | still => rfl
    | failed h => rw [hm] at h; cases h
    | round h hmoves =>
      rw [hm] at h
      cases h
      exact absurd hstill hmoves
  | round hm hmoves _ ih =>
    cases h' with
    | unmatched h | failed h => rw [hm] at h; cases h
    | still h hstill =>
      rw [hm] at h
      cases h
      exact absurd hstill hmoves
    | round h _ hloop =>
      rw [hm] at h
      cases h
      rw [ih hloop]

/-- A loop that stops in its first round comes to the same with every bound. -/
theorem Loop.of_stop {left : List Char} {c : Cursor}
    (hstop : ∀ v after, p c = .matched v after → after.offset = c.offset) :
    Loop p c (collectWithin p left c) := by
  rw [collectWithin.eq_def]
  cases hm : p c with
  | unmatched => exact .unmatched hm
  | failed fault => exact .failed hm
  | matched v after =>
    have hstill := hstop v after hm
    simp only [hstill, if_true]
    exact .still hm hstill

/-- **The bound of the loop is not reached**, and the loop comes to what it comes to without one, if
every round that moves leaves less of something that the bound covers at the start. -/
theorem Loop.of_collectWithin {At : Cursor → Prop} {size : Cursor → Nat}
    (hround : ∀ c v after, At c → p c = .matched v after → after.offset ≠ c.offset →
      At after ∧ size after < size c) {left : List Char} {c : Cursor} (hc : At c)
    (hleft : size c ≤ left.length) : Loop p c (collectWithin p left c) := by
  induction left generalizing c with
  | nil =>
    -- nothing is left that a round that moves could take from
    refine .of_stop fun v after hm => Decidable.byContradiction fun hmoves => ?_
    obtain ⟨-, hlt⟩ := hround c v after hc hm hmoves
    rw [List.length_nil] at hleft
    omega
  | cons x left ih =>
    by_cases hstop : ∀ v after, p c = .matched v after → after.offset = c.offset
    · exact .of_stop hstop
    · simp only [Classical.not_forall] at hstop
      obtain ⟨v, after, hm, hmoves⟩ := hstop
      obtain ⟨hafter, hlt⟩ := hround c v after hc hm hmoves
      rw [List.length_cons] at hleft
      rw [collectWithin, hm]
      simp only [hmoves, if_false]
      exact .round hm hmoves (ih hafter (by omega))

/-- What is left to read bounds the loop over a parser that only moves on, wherever it starts. -/
theorem Forward.loop (hp : p.Forward) (c : Cursor) : Loop p c (collect p c) := by
  have hround : ∀ c v after, True → p c = .matched v after → after.offset ≠ c.offset →
      True ∧ after.rest.length < c.rest.length := by
    intro c v after _ hm hmoves
    obtain ⟨n, hn, rfl, -⟩ := hp c v after hm
    have hpos : n ≠ 0 := by
      rintro rfl
      exact hmoves rfl
    rw [Cursor.advance_rest, List.length_drop]
    exact ⟨trivial, by omega⟩
  exact .of_collectWithin hround trivial (Nat.le_refl _)

theorem collect_iff (hp : p.Forward) {c : Cursor} {r : Except Fault (List α × Cursor)} :
    collect p c = r ↔ Loop p c r :=
  ⟨fun h => h ▸ hp.loop c, fun h => (hp.loop c).unique h⟩

/-- **The loop behind `many`**: a round after the other, until one does not match or reads
nothing. -/
theorem collect_eq (hp : p.Forward) (c : Cursor) :
    collect p c =
      match p c with
      | .matched v after =>
        if after.offset = c.offset then .ok ([], c)
        else (collect p after).map fun (vs, last) => (v :: vs, last)
      | .unmatched => .ok ([], c)
      | .failed fault => .error fault := by
  rw [collect_iff hp]
  cases hm : p c with
  | unmatched => exact .unmatched hm
  | failed fault => exact .failed hm
  | matched v after =>
    by_cases hstill : after.offset = c.offset
    · simp only [hstill, if_true]
      exact .still hm hstill
    · simp only [hstill, if_false]
      exact .round hm hstill (hp.loop after)

theorem collect_unmatched (hp : p.Forward) {c : Cursor} (h : p c = .unmatched) :
    collect p c = .ok ([], c) := by
  rw [collect_eq hp, h]

theorem collect_matched (hp : p.Forward) {c : Cursor} (hc : c.past = 0) {n : Nat} {v : α}
    (h : p c = .matched v (c.advance n)) (hpos : 0 < n) (hn : n ≤ c.rest.length) :
    collect p c = (collect p (c.advance n)).map fun (vs, last) => (v :: vs, last) := by
  rw [collect_eq hp, h]
  simp only [Cursor.advance_offset hc hn]
  rw [if_neg (by omega)]

end

/-! ## Repetition -/

/-- Values that are read one after the other from a place on, over `n` characters, each as `Q`
says. -/
inductive Chain (Q : Cursor → α → Nat → Prop) : Cursor → List α → Nat → Prop
  | nil (c : Cursor) : Chain Q c [] 0
  | cons {c : Cursor} {v : α} {vs : List α} {m n : Nat} :
      Q c v m → Chain Q (c.advance m) vs n → Chain Q c (v :: vs) (m + n)

theorem Chain.within {Q : Cursor → α → Nat → Prop} {c : Cursor} {vs : List α} {n : Nat}
    (h : Chain Q c vs n) : ∀ v ∈ vs, ∃ k m, k + m ≤ n ∧ Q (c.advance k) v m := by
  induction h with
  | nil c => simp
  | @cons c v vs m n hq _ ih =>
    intro w hw
    rcases List.mem_cons.1 hw with rfl | hw
    · exact ⟨0, m, by omega, hq⟩
    · obtain ⟨k, l, hkl, hl⟩ := ih w hw
      rw [Cursor.advance_advance] at hl
      exact ⟨m + k, l, by omega, hl⟩

/-- The rounds of a loop follow each other without a gap. -/
theorem Loop.chain {p : Parser α} {Q : Cursor → α → Nat → Prop} (hp : p.Ensures Q) {c last : Cursor}
    {r : Except Fault (List α × Cursor)} {vs : List α} (h : Loop p c r) (hr : r = .ok (vs, last)) :
    ∃ n, n ≤ c.rest.length ∧ last = c.advance n ∧ Chain Q c vs n := by
  induction h generalizing vs last with
  | failed _ => cases hr
  | unmatched _ | still _ _ =>
    cases hr
    exact ⟨0, Nat.zero_le _, rfl, .nil _⟩
  | @round c after v r hm _ _ ih =>
    cases r with
    | error fault => cases hr
    | ok result =>
      cases hr
      obtain ⟨a, ha, rfl, hq⟩ := hp c v after hm
      obtain ⟨b, hb, hlast, hchain⟩ := ih rfl
      rw [Cursor.advance_rest, List.length_drop] at hb
      rw [Cursor.advance_advance] at hlast
      exact ⟨a + b, by omega, hlast, .cons hq hchain⟩

theorem collect_chain {p : Parser α} {Q : Cursor → α → Nat → Prop} (hp : p.Ensures Q)
    {c last : Cursor} {vs : List α} (h : collect p c = .ok (vs, last)) :
    ∃ n, n ≤ c.rest.length ∧ last = c.advance n ∧ Chain Q c vs n :=
  (hp.forward.loop c).chain hp h

theorem Ensures.chain {p : Parser α} {Q : Cursor → α → Nat → Prop} (hp : p.Ensures Q) :
    (many p).Ensures fun c vs n => Chain Q c vs n := by
  intro c vs after h
  unfold Parser.many at h
  cases hc : collect p c with
  | ok result =>
    rw [hc] at h
    cases h
    exact collect_chain hp hc
  | error fault => rw [hc] at h; cases h

/-- Each of the values read lies within what is read, and is what one round ensures. -/
theorem Ensures.many {p : Parser α} {Q : Cursor → α → Nat → Prop} (hp : p.Ensures Q) :
    (many p).Ensures fun c vs n => ∀ v ∈ vs, ∃ k m, k + m ≤ n ∧ Q (c.advance k) v m :=
  hp.chain.mono fun _ _ _ h => h.within

theorem Ensures.sepBy1 {separator : Parser α} {item : Parser β} {Q : Cursor → β → Nat → Prop}
    (hs : separator.Forward) (hi : item.Ensures Q) :
    (sepBy1 separator item).Ensures fun c vs n =>
      vs ≠ [] ∧ ∀ v ∈ vs, ∃ k m, k + m ≤ n ∧ Q (c.advance k) v m := by
  have hnext : (Parser.preceded separator item).Ensures fun c v n =>
      ∃ k m, k + m ≤ n ∧ Q (c.advance k) v m :=
    .preceded hs hi fun c _ a _ b _ hq => ⟨a, b, Nat.le_refl _, hq⟩
  have hrest : ∀ first, (Parser.many (Parser.preceded separator item) >>= fun others =>
      Pure.pure (first :: others)).Ensures fun c vs n =>
        ∃ others, vs = first :: others ∧ ∀ v ∈ others, ∃ k m, k + m ≤ n ∧ Q (c.advance k) v m := by
    intro first
    refine .bind (Ensures.many hnext) (fun others => .pure (first :: others)) ?_
    intro c others a vs b hall h
    obtain ⟨rfl, rfl⟩ := h
    refine ⟨others, rfl, fun v hv => ?_⟩
    obtain ⟨k, m, hkm, k', m', hkm', hq⟩ := hall v hv
    rw [Cursor.advance_advance] at hq
    exact ⟨k + k', m', by omega, hq⟩
  refine .bind hi hrest ?_
  intro c first a vs b hq h
  obtain ⟨others, rfl, hall⟩ := h
  refine ⟨List.cons_ne_nil _ _, fun v hv => ?_⟩
  rcases List.mem_cons.1 hv with rfl | hv
  · exact ⟨0, a, by omega, hq⟩
  · obtain ⟨k, m, hkm, hq⟩ := hall v hv
    rw [Cursor.advance_advance] at hq
    exact ⟨a + k, m, by omega, hq⟩

end MipsSource.Parser
