import MipsSource.Proofs.Ensures

/-!
# Reading a given text

`p.Reads text tail V`: where `text` and then `tail` stand ahead, `p` matches, reads exactly `text`,
and its value satisfies `V`. `p.Refuses text`: where `text` stands ahead, `p` does not match. These
are the other half of what a match ensures, and there is again one rule for each way to build a
parser:

* `Reads.bind`, `Reads.orElse_left`, `Reads.orElse_right`: in sequence, and by choice.
-/

set_option autoImplicit false

namespace MipsSource.Parser

variable {α β γ : Type}

/-- `p` reads `text`, where `tail` follows, as a value that satisfies `V`. -/
def Reads (p : Parser α) (text tail : List Char) (V : α → Prop) : Prop :=
  ∀ c : Cursor, c.past = 0 → c.rest = text ++ tail →
    ∃ v, V v ∧ p c = .matched v (c.advance text.length)

/-- `p` does not match where `text` stands ahead. -/
def Refuses (p : Parser α) (text : List Char) : Prop :=
  ∀ c : Cursor, c.past = 0 → c.rest = text → p c = .unmatched

variable {p q : Parser α} {text front back tail : List Char} {V : α → Prop} {W : β → Prop}

theorem advance_rest_of_append {c : Cursor} (h : c.rest = front ++ tail) :
    (c.advance front.length).rest = tail := by
  rw [Cursor.advance_rest, h, List.drop_left]

/-! ## Values that need no text -/

theorem Reads.mono {U : α → Prop} (hp : p.Reads text tail V) (h : ∀ v, V v → U v) :
    p.Reads text tail U := by
  intro c hc hr
  obtain ⟨v, hv, hm⟩ := hp c hc hr
  exact ⟨v, h v hv, hm⟩

theorem Reads.pure (v : α) (tail : List Char) :
    (Pure.pure v : Parser α).Reads [] tail (· = v) := by
  intro c _ _
  exact ⟨v, rfl, rfl⟩

theorem Reads.position (tail : List Char) : position.Reads [] tail fun _ => True := by
  intro c _ _
  exact ⟨c, trivial, rfl⟩

theorem Reads.ofExcept {r : Except Fault α} {v : α} (h : r = .ok v) (tail : List Char) :
    (ofExcept r).Reads [] tail (· = v) := by
  subst h
  exact .pure v tail

theorem Reads.ofOption {o : Option α} {v : α} (h : o = some v) (tail : List Char) :
    (ofOption o).Reads [] tail (· = v) := by
  subst h
  exact .pure v tail

/-! ## Words -/

theorem Reads.scan {scanner : List Char → Option (α × Nat)} {v : α}
    (h : scanner (text ++ tail) = some (v, text.length)) :
    (scan scanner).Reads text tail (· = v) := by
  intro c _ hr
  refine ⟨v, rfl, ?_⟩
  rw [Parser.scan, hr, h]

theorem Refuses.scan {scanner : List Char → Option (α × Nat)} (h : scanner text = none) :
    (scan scanner).Refuses text := by
  intro c _ hr
  rw [Parser.scan, hr, h]

theorem Reads.tag (word : String) (tail : List Char) :
    (tag word).Reads word.toList tail (· = word) := by
  intro c hc hr
  have hs : c.startsWith word.toList = true := by
    rw [Cursor.startsWith_iff hc, hr]
    exact List.prefix_append _ _
  exact ⟨word, rfl, by rw [Parser.tag, if_pos hs]⟩

theorem Refuses.tag {word : String} (h : ¬ word.toList <+: text) : (tag word).Refuses text := by
  intro c hc hr
  have hs : ¬ c.startsWith word.toList = true := by
    rw [Cursor.startsWith_iff hc, hr]
    exact h
  rw [Parser.tag, if_neg hs]

/-! ## In sequence -/

theorem Reads.bind {next : α → Parser β} (hp : p.Reads front (back ++ tail) V)
    (hn : ∀ v, V v → (next v).Reads back tail W) : (p >>= next).Reads (front ++ back) tail W := by
  intro c hc hr
  rw [List.append_assoc] at hr
  obtain ⟨v, hv, hm⟩ := hp c hc hr
  have hrest := advance_rest_of_append hr
  obtain ⟨w, hw, hm'⟩ := hn v hv _ (Cursor.advance_past hc _) hrest
  refine ⟨w, hw, ?_⟩
  rw [bind_matched hm, hm', Cursor.advance_advance, List.length_append]

/-- In sequence, where the first parser reads nothing. -/
theorem Reads.bind_nil {next : α → Parser β} (hp : p.Reads [] (text ++ tail) V)
    (hn : ∀ v, V v → (next v).Reads text tail W) : (p >>= next).Reads text tail W := by
  have h := Reads.bind hp hn
  rwa [List.nil_append] at h

/-- In sequence, where the second parser reads nothing. -/
theorem Reads.bind_pure {next : α → Parser β} (hp : p.Reads text tail V)
    (hn : ∀ v, V v → (next v).Reads [] tail W) : (p >>= next).Reads text tail W := by
  rw [← List.append_nil text]
  exact Reads.bind hp hn

theorem Reads.map {f : α → β} (hp : p.Reads text tail V) (h : ∀ v, V v → W (f v)) :
    (f <$> p).Reads text tail W := by
  intro c hc hr
  obtain ⟨v, hv, hm⟩ := hp c hc hr
  exact ⟨f v, h v hv, map_matched hm⟩

theorem Reads.preceded {first : Parser α} {second : Parser β}
    (hp : first.Reads front (back ++ tail) V) (hq : second.Reads back tail W) :
    (preceded first second).Reads (front ++ back) tail W :=
  .bind hp fun _ _ => hq

theorem Refuses.bind {next : α → Parser β} (hp : p.Refuses text) : (p >>= next).Refuses text := by
  intro c hc hr
  exact bind_unmatched (hp c hc hr)

/-- The first parser matches, and then the second does not. -/
theorem Refuses.bind_right {next : α → Parser β} (hp : p.Reads front back V)
    (hn : ∀ v, V v → (next v).Refuses back) : (p >>= next).Refuses (front ++ back) := by
  intro c hc hr
  obtain ⟨v, hv, hm⟩ := hp c hc hr
  rw [bind_matched hm]
  exact hn v hv _ (Cursor.advance_past hc _) (advance_rest_of_append hr)

theorem Refuses.bind_nil {next : α → Parser β} (hp : p.Reads [] text V)
    (hn : ∀ v, V v → (next v).Refuses text) : (p >>= next).Refuses text := by
  have h := Refuses.bind_right hp hn
  rwa [List.nil_append] at h

theorem Refuses.map {f : α → β} (hp : p.Refuses text) : (f <$> p).Refuses text := by
  intro c hc hr
  exact map_unmatched (hp c hc hr)

/-! ## By choice -/

theorem Reads.orElse_left (hp : p.Reads text tail V) : (orElse p q).Reads text tail V := by
  intro c hc hr
  obtain ⟨v, hv, hm⟩ := hp c hc hr
  exact ⟨v, hv, orElse_matched hm⟩

theorem Reads.orElse_right (hp : p.Refuses (text ++ tail)) (hq : q.Reads text tail V) :
    (orElse p q).Reads text tail V := by
  intro c hc hr
  obtain ⟨v, hv, hm⟩ := hq c hc hr
  exact ⟨v, hv, by rw [orElse_unmatched (hp c hc hr), hm]⟩

theorem Refuses.orElse (hp : p.Refuses text) (hq : q.Refuses text) : (orElse p q).Refuses text := by
  intro c hc hr
  rw [orElse_unmatched (hp c hc hr), hq c hc hr]

theorem Refuses.noMatch (text : List Char) : (noMatch : Parser α).Refuses text := by
  intro c _ _
  rfl

theorem Reads.withDefault_none (hp : p.Refuses tail) (default : α) :
    (withDefault p default).Reads [] tail (· = default) :=
  .orElse_right hp (.pure default tail)

theorem Reads.optional_some (hp : p.Reads text tail V) :
    (optional p).Reads text tail fun o => ∃ v, o = some v ∧ V v :=
  .orElse_left (.map hp fun v hv => ⟨v, rfl, hv⟩)

theorem Reads.optional_none (hp : p.Refuses tail) : (optional p).Reads [] tail (· = none) :=
  .withDefault_none hp.map none

end MipsSource.Parser
