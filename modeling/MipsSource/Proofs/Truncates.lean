import MipsSource.Proofs.LexemeEnds
import MipsSource.Proofs.LineLocal

/-!
# Reading before a cut

Two runs of a parser, over a text and over the text cut off before `u`. `AtCut u c d`: the runs
stand at the same place before the cut. From there they give the same reply, as long as the run over
the whole text does not go past the cut (`Reply.Truncated`). Where it does, the other run can see
only what `E` says; and where it fails, nothing is said.

* `Sharp`: past the cut the other run does not match. Lexemes are sharp (`scan_sharp`).
* `Loose`: past the cut nothing is known. Going on after a sharp parser, choice and repetition are
  loose (`Sharp.bind`, `Loose.orElse`, `Loose.many`).
-/

set_option autoImplicit false

namespace MipsSource

/-! ## Places before a cut -/

/-- The same place in two texts, the first of which goes on with `u` where the second ends. -/
structure AtCut (u : List Char) (c d : Cursor) : Prop where
  beside : Beside u [] 0 0 c d
  clean : Lexeme.Clean d.rest u

section
variable {u : List Char} {c d : Cursor}

theorem AtCut.rest (h : AtCut u c d) : c.rest = d.rest ++ u := by
  obtain ⟨l, hc, hd⟩ := h.beside.rest
  rw [hd, List.append_nil]
  exact hc

/-- Moving on over whole lexemes before the cut. -/
theorem AtCut.advance (h : AtCut u c d) {n : Nat} (hn : n ≤ d.rest.length)
    (hw : Lexeme.Whole d.rest n) : AtCut u (c.advance n) (d.advance n) := by
  refine ⟨h.beside.advance h.rest (by rw [List.append_nil]) hn, ?_⟩
  rw [Cursor.advance_rest]
  exact h.clean.drop hw

theorem AtCut.length_le (h : AtCut u c d) : u.length ≤ c.rest.length := by
  rw [h.rest, List.length_append]
  omega

end

/-- The replies of two runs before a cut: the same, unless the first went past the cut or failed.
Past the cut the second reply satisfies `E`. -/
inductive Reply.Truncated {α β : Type} (u : List Char) (V : α → β → Prop) (E : Reply β → Prop) :
    Reply α → Reply β → Prop
  | matched {v : α} {w : β} {c d : Cursor} :
      V v w → AtCut u c d → Truncated u V E (.matched v c) (.matched w d)
  | unmatched : Truncated u V E .unmatched .unmatched
  | past {v : α} {c : Cursor} {r : Reply β} :
      c.rest.length < u.length → E r → Truncated u V E (.matched v c) r
  | failed {f : Fault} {r : Reply β} : Truncated u V E (.failed f) r

namespace Parser

variable {α β γ δ : Type} {u : List Char}

/-- From the same place before a cut, the parsers give replies that belong together. -/
structure Truncates (u : List Char) (V : α → β → Prop) (E : Reply β → Prop) (p : Parser α)
    (q : Parser β) : Prop where
  forward : p.Forward
  replies : ∀ c d, AtCut u c d → Reply.Truncated u V E (p c) (q d)

/-- Where the first run goes past the cut, the second does not match. -/
def Sharp (u : List Char) (V : α → β → Prop) (p : Parser α) (q : Parser β) : Prop :=
  Truncates u V (fun r => r = .unmatched) p q

/-- Where the first run goes past the cut, nothing is known of the second. -/
def Loose (u : List Char) (V : α → β → Prop) (p : Parser α) (q : Parser β) : Prop :=
  Truncates u V (fun _ => True) p q

/-- The parser always matches or fails. -/
def Total (p : Parser α) : Prop :=
  ∀ c, p c ≠ .unmatched

theorem Forward.past {p : Parser α} (hp : p.Forward) {c after : Cursor} {v : α} {n : Nat}
    (h : p c = .matched v after) (hc : c.rest.length < n) : after.rest.length < n := by
  obtain ⟨m, -, rfl, -⟩ := hp c v after h
  rw [Cursor.advance_rest, List.length_drop]
  omega

/-! ## Single steps -/

section
variable {V : α → β → Prop} {E F : Reply β → Prop} {p : Parser α} {q : Parser β}

theorem Truncates.mono (h : Truncates u V E p q) (hE : ∀ r, E r → F r) : Truncates u V F p q := by
  refine ⟨h.forward, fun c d hcut => ?_⟩
  have hr := h.replies c d hcut
  generalize p c = x at hr ⊢
  generalize q d = y at hr ⊢
  cases hr with
  | matched hv hat => exact .matched hv hat
  | unmatched => exact .unmatched
  | past hlen he => exact .past hlen (hE _ he)
  | failed => exact .failed

theorem Truncates.loose (h : Truncates u V E p q) : Loose u V p q :=
  h.mono fun _ _ => trivial

/-- More is known of the second run if it follows from the first going past the cut. -/
theorem Truncates.strengthen (h : Truncates u V E p q)
    (hF : ∀ c d v after, AtCut u c d → p c = .matched v after → after.rest.length < u.length →
      E (q d) → F (q d)) : Truncates u V F p q := by
  refine ⟨h.forward, fun c d hcut => ?_⟩
  have hr := h.replies c d hcut
  generalize hx : p c = x at hr ⊢
  generalize hy : q d = y at hr ⊢
  cases hr with
  | matched hv hat => exact .matched hv hat
  | unmatched => exact .unmatched
  | past hlen he => exact .past hlen (hy ▸ hF c d _ _ hcut hx hlen (hy ▸ he))
  | failed => exact .failed

section
variable {c d : Cursor}

/-- A reply that went past the cut. -/
theorem Truncates.of_past (h : Truncates u V E p q) (hat : AtCut u c d) {v : α} {after : Cursor}
    (hc : p c = .matched v after) (hpast : after.rest.length < u.length) : E (q d) := by
  have hr := h.replies c d hat
  rw [hc] at hr
  generalize q d = y at hr ⊢
  cases hr with
  | past _ he => exact he
  | matched _ hat' =>
    have hle := hat'.length_le
    omega

theorem Truncates.of_unmatched (h : Truncates u V E p q) (hat : AtCut u c d)
    (hc : p c = .unmatched) : q d = .unmatched := by
  have hr := h.replies c d hat
  rw [hc] at hr
  generalize q d = y at hr ⊢
  cases hr with
  | unmatched => rfl

end

theorem Truncates.pure {v : α} {w : β} (h : V v w) :
    Truncates u V E (Pure.pure v) (Pure.pure w) :=
  ⟨(Ensures.pure v).forward, fun _ _ hcut => .matched h hcut⟩

theorem Truncates.fail (fault : Fault) : Truncates u V E (Parser.fail fault) q :=
  ⟨.fail fault, fun _ _ _ => .failed⟩

theorem Truncates.noMatch : Truncates u V E Parser.noMatch Parser.noMatch :=
  ⟨.noMatch, fun _ _ _ => .unmatched⟩

end

theorem Truncates.ofOption {E : Reply α → Prop} (o : Option α) :
    Truncates u Eq E (ofOption o) (ofOption o) := by
  cases o with
  | some v => exact .pure rfl
  | none => exact .noMatch

theorem Truncates.ofExcept {E : Reply α → Prop} (r : Except Fault α) :
    Truncates u Eq E (ofExcept r) (ofExcept r) := by
  cases r with
  | ok v => exact .pure rfl
  | error fault => exact .fail fault

/-- **A scanner that can be cut is sharp.** -/
theorem scan_sharp {scanner : List Char → Option (α × Nat)}
    (hcut : ∀ l, Lexeme.Clean l u → Lexeme.Cut Prod.snd scanner l u)
    (hends : ∀ text v n, scanner text = some (v, n) → n ≤ text.length ∧ Lexeme.Whole text n) :
    Sharp u Eq (scan scanner) (scan scanner) := by
  refine ⟨.scan fun c v n hs => ⟨(hends _ v n hs).1, trivial⟩, fun c d hat => ?_⟩
  unfold scan
  rw [hat.rest]
  rcases hcut d.rest hat.clean with hsame | ⟨hnone, hpast⟩
  · rw [hsame]
    cases hs : scanner d.rest with
    | none => exact .unmatched
    | some found =>
      obtain ⟨v, n⟩ := found
      obtain ⟨hn, hw⟩ := hends _ v n hs
      exact .matched rfl (hat.advance hn hw)
  · rw [hnone]
    cases hs : scanner (d.rest ++ u) with
    | none => exact .unmatched
    | some found =>
      obtain ⟨v, n⟩ := found
      have hlt := hpast _ hs
      refine .past ?_ rfl
      rw [Cursor.advance_rest, List.length_drop, hat.rest, List.length_append]
      simp only at hlt
      have hle := (hends _ v n hs).1
      rw [List.length_append] at hle
      omega

/-- A scanner whose answer is worked out from a lexeme that can be cut. -/
theorem scan_map_sharp {lexeme? : List Char → Option γ} {size : γ → Nat} {f : γ → α × Nat}
    (hf : ∀ g, (f g).2 = size g) (hcut : ∀ l, Lexeme.Clean l u → Lexeme.Cut size lexeme? l u)
    (hends : ∀ text g, lexeme? text = some g → size g ≤ text.length ∧
      Lexeme.Whole text (size g)) :
    Sharp u Eq (scan fun text => (lexeme? text).map f)
      (scan fun text => (lexeme? text).map f) := by
  refine scan_sharp (fun l hl => ?_) fun text v n hs => ?_
  · rcases hcut l hl with hsame | ⟨hnone, hpast⟩
    · exact .inl (congrArg (Option.map f) hsame)
    · refine .inr ⟨congrArg (Option.map f) hnone, fun b hb => ?_⟩
      obtain ⟨g, hg, rfl⟩ := Option.map_eq_some_iff.1 hb
      rw [hf]
      exact hpast g hg
  · obtain ⟨g, hg, he⟩ := Option.map_eq_some_iff.1 hs
    have hsize := hf g
    rw [he] at hsize
    subst hsize
    exact hends text g hg

/-- A word that is not cut off in the middle, and does not end inside a register. -/
theorem tag_sharp {word : String} (hw : '$' ∉ word.toList) :
    Sharp u Eq (tag word) (tag word) := by
  refine ⟨(Ensures.tag word).forward, fun c d hat => ?_⟩
  have hstart : ∀ {x : Cursor}, x.past = 0 →
      (x.startsWith word.toList = true ↔ word.toList <+: x.rest) :=
    fun hx => Cursor.startsWith_iff hx _
  have hfront : d.rest <+: c.rest := ⟨u, hat.rest.symm⟩
  unfold tag
  by_cases hc : word.toList <+: c.rest
  · rw [if_pos ((hstart hat.beside.pastLeft).2 hc)]
    by_cases hlen : word.toList.length ≤ d.rest.length
    · have hd := List.prefix_of_prefix_length_le hc hfront hlen
      rw [if_pos ((hstart hat.beside.pastRight).2 hd)]
      refine .matched rfl (hat.advance hlen (Lexeme.whole_of_not_mem ?_))
      rw [← List.prefix_iff_eq_take.1 hd]
      exact hw
    · -- the word goes past the cut
      rw [if_neg fun hs => hlen ((hstart hat.beside.pastRight).1 hs).length_le]
      refine .past ?_ rfl
      have hle := hc.length_le
      rw [hat.rest, List.length_append] at hle
      rw [Cursor.advance_rest, List.length_drop, hat.rest, List.length_append]
      omega
  · rw [if_neg fun hs => hc ((hstart hat.beside.pastLeft).1 hs),
      if_neg fun hs => hc (((hstart hat.beside.pastRight).1 hs).trans hfront)]
    exact .unmatched

/-! ## Going on -/

section
variable {V : α → β → Prop} {W : γ → δ → Prop} {E : Reply β → Prop} {F : Reply δ → Prop}
  {p : Parser α} {q : Parser β} {next : α → Parser γ} {next' : β → Parser δ}

/-- Going on, if the replies belong together also where the first parser went past the cut. -/
theorem Truncates.bind_past (hp : Truncates u V E p q) (hV : ∀ v, ∃ w, V v w)
    (hn : ∀ v w, V v w → Truncates u W F (next v) (next' w))
    (hpast : ∀ v mid d, mid.rest.length < u.length → (next v).Forward → E (q d) →
      Reply.Truncated u W F (next v mid) ((q >>= next') d)) :
    Truncates u W F (p >>= next) (q >>= next') := by
  have hf : ∀ v, (next v).Forward := by
    intro v
    obtain ⟨w, hw⟩ := hV v
    exact (hn v w hw).forward
  refine ⟨.bind hp.forward hf fun _ _ _ _ _ _ _ => trivial, fun c d hcut => ?_⟩
  have hr := hp.replies c d hcut
  rw [bind_apply p]
  generalize p c = x at hr ⊢
  generalize hy : q d = y at hr
  cases hr with
  | matched hv hat =>
    rw [bind_matched hy]
    exact (hn _ _ hv).replies _ _ hat
  | unmatched =>
    rw [bind_unmatched hy]
    exact .unmatched
  | past hlen he => exact hpast _ _ d hlen (hf _) (hy ▸ he)
  | failed => exact .failed

/-- Going on, if past the cut the second run does not match. -/
theorem Truncates.bind (hp : Truncates u V E p q) (hV : ∀ v, ∃ w, V v w)
    (hn : ∀ v w, V v w → Truncates u W F (next v) (next' w))
    (hE : ∀ d, E (q d) → (q >>= next') d = .unmatched) (hF : F .unmatched) :
    Truncates u W F (p >>= next) (q >>= next') := by
  refine hp.bind_past hV hn fun v mid d hlen hf he => ?_
  rw [hE d he]
  cases hm : next v mid with
  | matched w after => exact .past (hf.past hm hlen) hF
  | unmatched => exact .unmatched
  | failed fault => exact .failed

/-- Going on with a parser that always matches or fails. -/
theorem Truncates.bind_total (hp : Truncates u V E p q) (hV : ∀ v, ∃ w, V v w)
    (hn : ∀ v w, V v w → Truncates u W F (next v) (next' w)) (ht : ∀ v, (next v).Total)
    (hE : ∀ d, E (q d) → F ((q >>= next') d)) : Truncates u W F (p >>= next) (q >>= next') := by
  refine hp.bind_past hV hn fun v mid d hlen hf he => ?_
  cases hm : next v mid with
  | matched w after => exact .past (hf.past hm hlen) (hE d he)
  | unmatched => exact absurd hm (ht v mid)
  | failed fault => exact .failed

theorem Sharp.bind (hp : Sharp u V p q) (hV : ∀ v, ∃ w, V v w)
    (hn : ∀ v w, V v w → Truncates u W F (next v) (next' w)) (hF : F .unmatched) :
    Truncates u W F (p >>= next) (q >>= next') :=
  Truncates.bind hp hV hn (fun _ h => bind_unmatched h) hF

theorem Loose.bind_total (hp : Loose u V p q) (hV : ∀ v, ∃ w, V v w)
    (hn : ∀ v w, V v w → Loose u W (next v) (next' w)) (ht : ∀ v, (next v).Total) :
    Loose u W (p >>= next) (q >>= next') :=
  Truncates.bind_total hp hV hn ht fun _ _ => trivial

/-- Going on from the place itself. -/
theorem Truncates.position_bind {next : Cursor → Parser γ} {next' : Cursor → Parser δ}
    (hf : (Parser.position >>= next).Forward)
    (hn : ∀ s s', AtCut u s s' → Truncates u W F (next s) (next' s')) :
    Truncates u W F (Parser.position >>= next) (Parser.position >>= next') :=
  ⟨hf, fun c d hat => (hn c d hat).replies c d hat⟩

end

/-! ### The same parser twice -/

section
variable {p : Parser α} {next : α → Parser β}

theorem Sharp.andThen {F : Reply β → Prop} (hp : Sharp u Eq p p)
    (hn : ∀ v, Truncates u Eq F (next v) (next v)) (hF : F .unmatched) :
    Truncates u Eq F (p >>= next) (p >>= next) := by
  refine Sharp.bind hp (fun v => ⟨v, rfl⟩) ?_ hF
  rintro v _ rfl
  exact hn v

theorem Sharp.andThen_sharp (hp : Sharp u Eq p p) (hn : ∀ v, Sharp u Eq (next v) (next v)) :
    Sharp u Eq (p >>= next) (p >>= next) :=
  hp.andThen hn rfl

theorem Sharp.andThen_loose (hp : Sharp u Eq p p) (hn : ∀ v, Loose u Eq (next v) (next v)) :
    Loose u Eq (p >>= next) (p >>= next) :=
  hp.andThen hn trivial

theorem Loose.andThen_total (hp : Loose u Eq p p) (hn : ∀ v, Loose u Eq (next v) (next v))
    (ht : ∀ v, (next v).Total) : Loose u Eq (p >>= next) (p >>= next) := by
  refine Loose.bind_total hp (fun v => ⟨v, rfl⟩) ?_ ht
  rintro v _ rfl
  exact hn v

theorem Total.pure (v : α) : (Pure.pure v : Parser α).Total := by
  intro c h
  cases h

theorem Sharp.map (f : α → β) (hp : Sharp u Eq p p) : Sharp u Eq (f <$> p) (f <$> p) :=
  hp.andThen_sharp fun _ => .pure rfl

theorem Loose.map (f : α → β) (hp : Loose u Eq p p) : Loose u Eq (f <$> p) (f <$> p) :=
  hp.andThen_total (fun _ => .pure rfl) fun v => .pure (f v)

theorem Sharp.preceded {q : Parser β} {F : Reply β → Prop} (hp : Sharp u Eq p p)
    (hq : Truncates u Eq F q q) (hF : F .unmatched) :
    Truncates u Eq F (preceded p q) (preceded p q) :=
  hp.andThen (fun _ => hq) hF

theorem Sharp.sequence : ∀ {ps : List (Parser α)}, (∀ p ∈ ps, Sharp u Eq p p) →
    Sharp u Eq (sequence ps) (sequence ps)
  | [], _ => Truncates.pure rfl
  | _ :: _, h => (h _ List.mem_cons_self).andThen_sharp fun _ =>
      (Sharp.sequence fun q hq => h q (List.mem_cons_of_mem _ hq)).andThen_sharp fun _ => .pure rfl

end

/-! ## Choice -/

section
variable {V : α → β → Prop} {p p' : Parser α} {q q' : Parser β}

theorem Loose.orElse (hp : Loose u V p q) (hq : Loose u V p' q') :
    Loose u V (orElse p p') (orElse q q') := by
  refine ⟨.orElse hp.forward hq.forward, fun c d hcut => ?_⟩
  have hr := hp.replies c d hcut
  unfold Parser.orElse
  generalize p c = x at hr ⊢
  generalize q d = y at hr ⊢
  cases hr with
  | matched hv hat => exact .matched hv hat
  | unmatched => exact hq.replies c d hcut
  | past hlen _ => exact .past hlen trivial
  | failed => exact .failed

theorem Loose.choice : ∀ {ps : List (Parser α)}, (∀ p ∈ ps, Loose u Eq p p) →
    Loose u Eq (choice ps) (choice ps)
  | [], _ => Truncates.noMatch
  | _ :: _, h => (h _ List.mem_cons_self).orElse
      (Loose.choice fun p hp => h p (List.mem_cons_of_mem _ hp))

theorem Loose.withDefault {p : Parser α} (default : α) (hp : Loose u Eq p p) :
    Loose u Eq (withDefault p default) (withDefault p default) :=
  hp.orElse (Truncates.pure rfl)

theorem Loose.optional (hp : Loose u V p q) (hV : ∀ v, ∃ w, V v w) :
    Loose u (Option.Rel V) (optional p) (optional q) := by
  have hsome : Loose u (Option.Rel V) (some <$> p) (some <$> q) :=
    Loose.bind_total hp hV (fun _ _ hv => Truncates.pure (.some hv)) fun v => .pure (some v)
  exact hsome.orElse (Truncates.pure .none)

end

/-- An optional parser that matches has read something, or stays where it is. -/
theorem optional_eq_matched {p : Parser α} {c after : Cursor} {o : Option α}
    (h : optional p c = .matched o after) : (∃ v, p c = .matched v after) ∨ after = c := by
  rcases orElse_eq_matched h with h | ⟨-, h⟩
  · obtain ⟨v, mid, hv, hsome⟩ := bind_eq_matched.1 h
    cases hsome
    exact .inl ⟨v, hv⟩
  · cases h
    exact .inr rfl

/-- Where a sharp parser goes past the cut, nothing of it is found before the cut. -/
theorem Sharp.optional {p : Parser α} (hp : Sharp u Eq p p) :
    Truncates u Eq (fun r => ∃ d, r = .matched none d) (optional p) (optional p) := by
  have hloose : Loose u Eq (Parser.optional p) (Parser.optional p) :=
    .withDefault none (Loose.map some hp.loose)
  refine hloose.strengthen fun c d o after hat hc hpast _ => ?_
  have hle := hat.length_le
  obtain ⟨v, hv⟩ | rfl := optional_eq_matched hc
  · have hnone : p d = .unmatched := Truncates.of_past hp hat hv hpast
    exact ⟨d, orElse_unmatched (map_unmatched hnone)⟩
  · omega

/-! ## Repetition -/

/-- The loop gives the same values before the cut, unless it goes past the cut or fails. -/
theorem collect_truncated {p : Parser α} (hp : Loose u Eq p p) {c d : Cursor} (hat : AtCut u c d) :
    (∃ vs c' d', collect p c = .ok (vs, c') ∧ collect p d = .ok (vs, d') ∧ AtCut u c' d') ∨
      (∃ vs c', collect p c = .ok (vs, c') ∧ c'.rest.length < u.length) ∨
      ∃ f, collect p c = .error f := by
  -- induction on what the first run has left to read
  induction hlen : c.rest.length using Nat.strongRecOn generalizing c d with
  | _ n ih =>
    have hc := hat.beside.pastLeft
    have hr := hp.replies c d hat
    rw [collect_eq hp.forward, collect_eq hp.forward]
    generalize hx : p c = x at hr ⊢
    generalize p d = y at hr ⊢
    cases hr with
    | unmatched => exact .inl ⟨[], c, d, rfl, rfl, hat⟩
    | @failed f => exact .inr (.inr ⟨f, rfl⟩)
    | @matched v w c' d' hv hat' =>
      subst hv
      have hoffset := hat.beside.offset
      have hoffset' := hat'.beside.offset
      by_cases hstill : c'.offset = c.offset
      · have hstill' : d'.offset = d.offset := by omega
        simp only [hstill, hstill', if_true]
        exact .inl ⟨[], c, d, rfl, rfl, hat⟩
      · have hstill' : ¬ d'.offset = d.offset := by omega
        simp only [hstill, hstill', if_false]
        obtain ⟨k, hk, rfl, -⟩ := hp.forward c v c' hx
        have hlt : (c.advance k).rest.length < n := by
          rw [Cursor.advance_offset hc hk] at hstill
          rw [Cursor.advance_rest, List.length_drop]
          omega
        rcases ih _ hlt hat' rfl with ⟨vs, c', d', h1, h2, h3⟩ | ⟨vs, c', h1, h2⟩ | ⟨f, h1⟩
        · rw [h1, h2]
          exact .inl ⟨v :: vs, c', d', rfl, rfl, h3⟩
        · rw [h1]
          exact .inr (.inl ⟨v :: vs, c', rfl, h2⟩)
        · rw [h1]
          exact .inr (.inr ⟨f, rfl⟩)
    | @past v c' _ hpast _ =>
      -- a round that goes past the cut has moved
      obtain ⟨k, hk, rfl, -⟩ := hp.forward c v c' hx
      have hle := hat.length_le
      have hmoved : ¬ (c.advance k).offset = c.offset := by
        rw [Cursor.advance_rest, List.length_drop] at hpast
        rw [Cursor.advance_offset hc hk]
        omega
      simp only [hmoved, if_false]
      cases hr : collect p (c.advance k) with
      | error f => exact .inr (.inr ⟨f, rfl⟩)
      | ok result =>
        obtain ⟨m, -, hlast, -⟩ := collect_chain hp.forward hr
        refine .inr (.inl ⟨v :: result.1, result.2, rfl, ?_⟩)
        rw [hlast, Cursor.advance_rest, List.length_drop]
        omega

theorem Loose.many {p : Parser α} (hp : Loose u Eq p p) : Loose u Eq (many p) (many p) := by
  refine ⟨(Ensures.many hp.forward).forward, fun c d hat => ?_⟩
  unfold Parser.many
  rcases collect_truncated hp hat with ⟨vs, c', d', h1, h2, h3⟩ | ⟨vs, c', h1, h2⟩ | ⟨f, h1⟩
  · rw [h1, h2]
    exact .matched rfl h3
  · rw [h1]
    exact .past h2 trivial
  · rw [h1]
    exact .failed

/-! ## Parsers that always match or fail -/

theorem Total.fail (fault : Fault) : (fail fault : Parser α).Total := by
  intro c h
  cases h

theorem Total.ofExcept (r : Except Fault α) : (ofExcept r).Total := by
  cases r with
  | ok v => exact .pure v
  | error fault => exact .fail fault

theorem Total.bind {p : Parser α} {next : α → Parser β} (hp : p.Total)
    (hn : ∀ v, (next v).Total) : (p >>= next).Total := by
  intro c h
  rw [bind_apply] at h
  cases hm : p c with
  | matched v mid => rw [hm] at h; exact hn v mid h
  | unmatched => exact hp c hm
  | failed fault => rw [hm] at h; cases h

theorem Total.withDefault (p : Parser α) (default : α) : (withDefault p default).Total := by
  intro c h
  unfold Parser.withDefault Parser.orElse at h
  cases hm : p c with
  | matched v mid => rw [hm] at h; cases h
  | unmatched => rw [hm] at h; cases h
  | failed fault => rw [hm] at h; cases h

theorem Total.many (p : Parser α) : (many p).Total := by
  intro c h
  unfold Parser.many at h
  cases hc : collect p c with
  | ok result => rw [hc] at h; cases h
  | error fault => rw [hc] at h; cases h

theorem Loose.sepBy1 {separator : Parser α} {item : Parser β} (hs : Sharp u Eq separator separator)
    (hi : Loose u Eq item item) : Loose u Eq (sepBy1 separator item) (sepBy1 separator item) := by
  have hnext : Loose u Eq (preceded separator item) (preceded separator item) :=
    hs.preceded hi trivial
  refine hi.andThen_total (fun first => ?_) fun first => ?_
  · exact hnext.many.andThen_total (fun _ => .pure rfl) fun _ => .pure _
  · exact (Total.many _).bind fun _ => .pure _

end Parser

end MipsSource
