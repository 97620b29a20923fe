import MipsSource.Proofs.Blames
import MipsSource.Proofs.Composed

/-!
# The longest list

`Parser.sepBy1` reads an item and then goes on with a separator and an item as long as both match
and something is read. `LongestList` says so without a loop: the items are linked from place to
place (`Links`), and where they end no link follows (`Dangles`), or a parser fails (`LinkFails`).
Nothing is assumed of the parsers but that they stay in the text (`StaysIn`); they may give any
lines and columns.

* `LongestList.unique`: from a place there is one answer.
* `Loop.links`: the loop over the links goes on until no link follows, or one fails.
* `sepBy1_longest`: a list answers what `LongestList` says, and a match ends with its last item.
* `sepBy1_beyond`: parsers that go on beyond the end of the text may have no list.
-/

set_option autoImplicit false

namespace MipsSource.Parser

variable {α β : Type}

/-! ## Parsers that stay in a text -/

section
variable (text : List Char)

/-- The cursor stands in the text, or beyond its end. -/
def IsPlace (c : Cursor) : Prop :=
  ∃ offset line col, c = .ofText text offset line col

/-- Every match from a place of the text ends at a place of the text that does not lie before. -/
def MovesOver (p : Parser α) : Prop :=
  ∀ c v after, IsPlace text c → p c = .matched v after →
    IsPlace text after ∧ c.offset ≤ after.offset

/-- The parser moves over the text, but not beyond its end: from there nothing moves. Without this
bound there may be no list to read (`sepBy1_beyond`). -/
structure StaysIn (p : Parser α) : Prop where
  movesOver : p.MovesOver text
  within : ∀ c v after, IsPlace text c → p c = .matched v after →
    after.offset ≤ max c.offset text.length

end

section
variable {text : List Char}

theorem Forward.staysIn {p : Parser α} (hp : p.Forward) (text : List Char) : p.StaysIn text := by
  have hround : ∀ c v after, IsPlace text c → p c = .matched v after →
      IsPlace text after ∧ c.offset ≤ after.offset ∧ after.offset ≤ max c.offset text.length := by
    rintro _ v after ⟨offset, line, col, rfl⟩ h
    obtain ⟨n, hn, rfl, -⟩ := hp _ v after h
    obtain ⟨line', col', hafter⟩ := Cursor.ofText_advance line col hn
    have hlen : n ≤ text.length - offset := by
      rw [← List.length_drop]
      exact hn
    rw [hafter]
    refine ⟨⟨offset + n, line', col', rfl⟩, ?_, ?_⟩ <;> simp only [Cursor.ofText] <;> omega
  constructor
  · intro c v after hc h
    obtain ⟨hafter, hle, -⟩ := hround c v after hc h
    exact ⟨hafter, hle⟩
  · intro c v after hc h
    exact (hround c v after hc h).2.2

theorem MovesOver.preceded {first : Parser α} {second : Parser β} (hf : first.MovesOver text)
    (hs : second.MovesOver text) : (preceded first second).MovesOver text := by
  intro c w after hc h
  obtain ⟨v, mid, hv, hw⟩ := bind_eq_matched.1 h
  obtain ⟨hmid, hle⟩ := hf c v mid hc hv
  obtain ⟨hafter, hle'⟩ := hs mid w after hmid hw
  exact ⟨hafter, Nat.le_trans hle hle'⟩

theorem StaysIn.preceded {first : Parser α} {second : Parser β} (hf : first.StaysIn text)
    (hs : second.StaysIn text) : (preceded first second).StaysIn text := by
  refine ⟨hf.movesOver.preceded hs.movesOver, fun c w after hc h => ?_⟩
  obtain ⟨v, mid, hv, hw⟩ := bind_eq_matched.1 h
  have hmid := (hf.movesOver c v mid hc hv).1
  have hend := hf.within c v mid hc hv
  have hend' := hs.within mid w after hmid hw
  omega

/-- What is left of the text bounds the loop. -/
theorem StaysIn.loop {p : Parser α} (hp : p.StaysIn text) {c : Cursor} (hc : IsPlace text c) :
    Loop p c (collect p c) := by
  have hround : ∀ c v after, IsPlace text c → p c = .matched v after →
      after.offset ≠ c.offset →
      IsPlace text after ∧ text.length - after.offset < text.length - c.offset := by
    intro c v after hc hm hmoves
    obtain ⟨hafter, hle⟩ := hp.movesOver c v after hc hm
    have hend := hp.within c v after hc hm
    exact ⟨hafter, by omega⟩
  have hleft : text.length - c.offset ≤ c.rest.length := by
    obtain ⟨offset, line, col, rfl⟩ := hc
    exact Nat.le_of_eq List.length_drop.symm
  exact .of_collectWithin hround hc hleft

end

/-! ## Links -/

section
variable (separator : Parser α) (item : Parser β)

/-- A separator is read, and an item after it. -/
def Linked (c : Cursor) (v : β) (after : Cursor) : Prop :=
  ∃ s mid, separator c = .matched s mid ∧ item mid = .matched v after

/-- Items that are linked one to the other, each link moving on, and the place where they end. -/
inductive Links : Cursor → List β → Cursor → Prop
  | nil (c : Cursor) : Links c [] c
  | cons {c next last : Cursor} {v : β} {vs : List β} :
      Linked separator item c v next → c.offset < next.offset → Links next vs last →
      Links c (v :: vs) last

/-- No link follows: there is no separator, or no item after it, or both together read nothing. -/
inductive Dangles (c : Cursor) : Prop
  | noSeparator : separator c = .unmatched → Dangles c
  | noItem {s : α} {mid : Cursor} :
      separator c = .matched s mid → item mid = .unmatched → Dangles c
  | still {v : β} {after : Cursor} :
      Linked separator item c v after → after.offset = c.offset → Dangles c

/-- The next link fails. -/
inductive LinkFails (c : Cursor) (fault : Fault) : Prop
  | separator : separator c = .failed fault → LinkFails c fault
  | item {s : α} {mid : Cursor} :
      separator c = .matched s mid → item mid = .failed fault → LinkFails c fault

/-- What a list answers: no match where there is no first item; the first item and all that are
linked to it, up to where no link follows; or the fault of the parser that fails first. -/
inductive LongestList (c : Cursor) : Reply (List β) → Prop
  | unmatched : item c = .unmatched → LongestList c .unmatched
  | failed {fault : Fault} : item c = .failed fault → LongestList c (.failed fault)
  | matched {v : β} {vs : List β} {mid last : Cursor} :
      item c = .matched v mid → Links separator item mid vs last →
      Dangles separator item last → LongestList c (.matched (v :: vs) last)
  | linkFailed {v : β} {vs : List β} {mid last : Cursor} {fault : Fault} :
      item c = .matched v mid → Links separator item mid vs last →
      LinkFails separator item last fault → LongestList c (.failed fault)

end

section
variable {separator : Parser α} {item : Parser β} {c : Cursor}

theorem linked_iff {v : β} {after : Cursor} :
    Linked separator item c v after ↔ preceded separator item c = .matched v after :=
  bind_eq_matched.symm

theorem dangles_of_unmatched (h : preceded separator item c = .unmatched) :
    Dangles separator item c := by
  rw [preceded, bind_apply] at h
  cases hs : separator c with
  | unmatched => exact .noSeparator hs
  | matched s mid =>
    rw [hs] at h
    exact .noItem hs h
  | failed fault =>
    rw [hs] at h
    cases h

theorem linkFails_of_failed {fault : Fault} (h : preceded separator item c = .failed fault) :
    LinkFails separator item c fault := by
  rcases bind_eq_failed h with hs | ⟨s, mid, hs, hi⟩
  · exact .separator hs
  · exact .item hs hi

/-! ## One answer -/

/-- No link moves on from here. -/
def AtLast (separator : Parser α) (item : Parser β) (c : Cursor) : Prop :=
  ∀ v after, Linked separator item c v after → ¬ c.offset < after.offset

/-- Where no link follows, the separator and the item together do not match or do not move. -/
theorem Dangles.preceded (h : Dangles separator item c) :
    preceded separator item c = .unmatched ∨ ∃ v after,
      preceded separator item c = .matched v after ∧ after.offset = c.offset := by
  cases h with
  | noSeparator h => exact .inl (bind_unmatched h)
  | noItem h h' => exact .inl ((bind_matched h).trans h')
  | still h heq => exact .inr ⟨_, _, linked_iff.1 h, heq⟩

theorem Dangles.atLast (h : Dangles separator item c) : AtLast separator item c := by
  intro v after hl
  rw [linked_iff] at hl
  rcases h.preceded with hp | ⟨w, mid, hp, heq⟩
  · rw [hp] at hl
    cases hl
  · rw [hp] at hl
    cases hl
    exact Nat.not_lt.2 (Nat.le_of_eq heq)

theorem LinkFails.preceded {fault : Fault} (h : LinkFails separator item c fault) :
    preceded separator item c = .failed fault := by
  cases h with
  | separator h => exact bind_failed h
  | item h h' => exact (bind_matched h).trans h'

theorem LinkFails.atLast {fault : Fault} (h : LinkFails separator item c fault) :
    AtLast separator item c := by
  intro v after hl
  rw [linked_iff, h.preceded] at hl
  cases hl

theorem LinkFails.not_dangles {fault : Fault} (h : LinkFails separator item c fault) :
    ¬ Dangles separator item c := by
  intro hd
  rcases hd.preceded with hp | ⟨v, after, hp, -⟩
  · rw [h.preceded] at hp
    cases hp
  · rw [h.preceded] at hp
    cases hp

/-- Links that go on as far as they can are settled by where they start. -/
theorem Links.unique {vs ws : List β} {last last' : Cursor} (h : Links separator item c vs last)
    (h' : Links separator item c ws last') (hend : AtLast separator item last)
    (hend' : AtLast separator item last') : vs = ws ∧ last = last' := by
  induction h generalizing ws with
  | nil c =>
    cases h' with
    | nil => exact ⟨rfl, rfl⟩
    | cons hl hlt _ => exact absurd hlt (hend _ _ hl)
  | cons hl hlt _ ih =>
    cases h' with
    | nil => exact absurd hlt (hend' _ _ hl)
    | cons hl' _ hrest =>
      rw [linked_iff] at hl hl'
      rw [hl] at hl'
      cases hl'
      obtain ⟨rfl, rfl⟩ := ih hrest hend
      exact ⟨rfl, rfl⟩

/-- What is known of an answer after the first item. -/
theorem LongestList.after_first {reply : Reply (List β)}
    (h : LongestList separator item c reply) {v : β} {mid : Cursor}
    (hi : item c = .matched v mid) :
    ∃ vs last, Links separator item mid vs last ∧
      ((Dangles separator item last ∧ reply = .matched (v :: vs) last) ∨
        ∃ fault, LinkFails separator item last fault ∧ reply = .failed fault) := by
  cases h with
  | unmatched h =>
    rw [hi] at h
    cases h
  | failed h =>
    rw [hi] at h
    cases h
  | matched h hl hd =>
    rw [hi] at h
    cases h
    exact ⟨_, _, hl, .inl ⟨hd, rfl⟩⟩
  | linkFailed h hl hf =>
    rw [hi] at h
    cases h
    exact ⟨_, _, hl, .inr ⟨_, hf, rfl⟩⟩

/-- **From a place there is one answer.** -/
theorem LongestList.unique {r r' : Reply (List β)} (h : LongestList separator item c r)
    (h' : LongestList separator item c r') : r = r' := by
  cases hi : item c with
  | unmatched => cases h <;> cases h' <;> simp_all
  | failed fault => cases h <;> cases h' <;> simp_all
  | matched v mid =>
    obtain ⟨vs, last, hl, hr⟩ := h.after_first hi
    obtain ⟨ws, last', hl', hr'⟩ := h'.after_first hi
    rcases hr with ⟨hd, rfl⟩ | ⟨fault, hf, rfl⟩ <;> rcases hr' with ⟨hd', rfl⟩ | ⟨fault', hf', rfl⟩
    · obtain ⟨rfl, rfl⟩ := hl.unique hl' hd.atLast hd'.atLast
      rfl
    · obtain ⟨-, rfl⟩ := hl.unique hl' hd.atLast hf'.atLast
      exact absurd hd hf'.not_dangles
    · obtain ⟨-, rfl⟩ := hl.unique hl' hf.atLast hd'.atLast
      exact absurd hd' hf.not_dangles
    · obtain ⟨-, rfl⟩ := hl.unique hl' hf.atLast hf'.atLast
      have heq := hf.preceded.symm.trans hf'.preceded
      cases heq
      rfl

end

/-! ## The loop -/

section
variable {text : List Char} {separator : Parser α} {item : Parser β}

/-- **The loop over the links**: it goes on until no link follows, or one fails. -/
theorem Loop.links (hp : (preceded separator item).MovesOver text) {c : Cursor}
    {r : Except Fault (List β × Cursor)} (h : Loop (preceded separator item) c r)
    (hc : IsPlace text c) :
    ∃ vs last, Links separator item c vs last ∧
      ((Dangles separator item last ∧ r = .ok (vs, last)) ∨
        ∃ fault, LinkFails separator item last fault ∧ r = .error fault) := by
  induction h with
  | unmatched hm => exact ⟨[], _, .nil _, .inl ⟨dangles_of_unmatched hm, rfl⟩⟩
  | still hm hstill => exact ⟨[], _, .nil _, .inl ⟨.still (linked_iff.2 hm) hstill, rfl⟩⟩
  | failed hm => exact ⟨[], _, .nil _, .inr ⟨_, linkFails_of_failed hm, rfl⟩⟩
  | @round c after v r hm hmoves _ ih =>
    obtain ⟨hafter, hle⟩ := hp _ _ _ hc hm
    obtain ⟨vs, last, hlinks, hcases⟩ := ih hafter
    have hlt : c.offset < after.offset := Nat.lt_of_le_of_ne hle (Ne.symm hmoves)
    refine ⟨v :: vs, last, .cons (linked_iff.2 hm) hlt hlinks, ?_⟩
    rcases hcases with ⟨hd, rfl⟩ | ⟨fault, hf, rfl⟩
    · exact .inl ⟨hd, rfl⟩
    · exact .inr ⟨fault, hf, rfl⟩

theorem sepBy1_apply (separator : Parser α) (item : Parser β) (c : Cursor) :
    sepBy1 separator item c =
      match item c with
      | .matched v mid =>
        match collect (preceded separator item) mid with
        | .ok (vs, last) => .matched (v :: vs) last
        | .error fault => .failed fault
      | .unmatched => .unmatched
      | .failed fault => .failed fault := by
  rw [sepBy1, bind_apply]
  cases item c with
  | matched v mid =>
    simp only [bind_apply, many]
    cases collect (preceded separator item) mid <;> rfl
  | unmatched => rfl
  | failed fault => rfl

/-- What is read of a list is the longest list. -/
theorem longestList_sepBy1 (hs : separator.StaysIn text) (hi : item.StaysIn text) (offset : Nat)
    (line col : Int) :
    LongestList separator item (.ofText text offset line col)
      (sepBy1 separator item (.ofText text offset line col)) := by
  rw [sepBy1_apply]
  cases hm : item (.ofText text offset line col) with
  | unmatched => exact .unmatched hm
  | failed fault => exact .failed hm
  | matched v mid =>
    have hmid : IsPlace text mid := (hi.movesOver _ _ _ ⟨offset, line, col, rfl⟩ hm).1
    have hp := hs.preceded hi
    obtain ⟨vs, last, hlinks, hcases⟩ := (hp.loop hmid).links hp.movesOver hmid
    rcases hcases with ⟨hd, hrest⟩ | ⟨fault, hf, hrest⟩
    · simp only [hrest]
      exact .matched hm hlinks hd
    · simp only [hrest]
      exact .linkFailed hm hlinks hf

/-- Links end where their last item ends. -/
theorem Links.last_item {c last : Cursor} {vs : List β} (h : Links separator item c vs last)
    {start : Cursor} {v : β} (hv : item start = .matched v c) :
    ∃ start' w, item start' = .matched w last ∧ (v :: vs).getLast? = some w := by
  induction h generalizing start v with
  | nil c => exact ⟨start, v, hv, rfl⟩
  | cons hl _ _ ih =>
    obtain ⟨s, mid, -, hi⟩ := hl
    obtain ⟨start', w, hw, hlast⟩ := ih hi
    exact ⟨start', w, hw, by rw [List.getLast?_cons_cons, hlast]⟩

/-- **A list is the longest one, and a separator that no item follows is left unread.** From every
place of a text, parsers that stay in it read a list where they read an item; what they answer is
`LongestList`, and only that; and a match ends at the end of its last item. -/
theorem sepBy1_longest (hs : separator.StaysIn text) (hi : item.StaysIn text) (offset : Nat)
    (line col : Int) :
    (sepBy1 separator item (.ofText text offset line col) = .unmatched ↔
        item (.ofText text offset line col) = .unmatched) ∧
      (∀ reply, sepBy1 separator item (.ofText text offset line col) = reply ↔
        LongestList separator item (.ofText text offset line col) reply) ∧
      ∀ vs last, sepBy1 separator item (.ofText text offset line col) = .matched vs last →
        ∃ start v, item start = .matched v last ∧ vs.getLast? = some v := by
  have hlist := longestList_sepBy1 hs hi offset line col
  have hiff : ∀ reply, sepBy1 separator item (.ofText text offset line col) = reply ↔
      LongestList separator item (.ofText text offset line col) reply :=
    fun reply => ⟨fun h => h ▸ hlist, fun h => hlist.unique h⟩
  refine ⟨?_, hiff, fun vs last h => ?_⟩
  · rw [hiff]
    refine ⟨fun h => ?_, .unmatched⟩
    cases h
    assumption
  · rw [hiff] at h
    cases h with
    | matched hfirst hlinks _ => exact hlinks.last_item hfirst

/-- A list before a comma that no name follows: the comma, and the space before it, are not read. -/
theorem sepBy1_longest_dangling :
    comma.StaysIn "ab ,c , ;".toList ∧ identifier.StaysIn "ab ,c , ;".toList ∧
      sepBy1 comma identifier (.ofText "ab ,c , ;".toList 0 1 1) =
        .matched ["ab", "c"] (.ofText "ab ,c , ;".toList 5 1 6) ∧
      LongestList comma identifier (.ofText "ab ,c , ;".toList 0 1 1)
        (.matched ["ab", "c"] (.ofText "ab ,c , ;".toList 5 1 6)) := by
  have hcomma := comma_forward.staysIn "ab ,c , ;".toList
  have hname := identifier_ensures.forward.staysIn "ab ,c , ;".toList
  have heval : sepBy1 comma identifier (.ofText "ab ,c , ;".toList 0 1 1) =
      .matched ["ab", "c"] (.ofText "ab ,c , ;".toList 5 1 6) := by decide +kernel
  exact ⟨hcomma, hname, heval, ((sepBy1_longest hcomma hname 0 1 1).2.1 _).1 heval⟩

end

/-! ## Beyond the end -/

/-- Every match ends one place further on, also beyond the end of the text. -/
def beyond : Parser Unit := fun c =>
  .matched ()
    { c with
      rest := c.rest.tail
      offset := c.offset + 1
      past := c.past + 1 - c.rest.length
      col := c.col + 1 }

theorem beyond_ofText (text : List Char) (offset : Nat) (line col : Int) :
    beyond (.ofText text offset line col) =
      .matched () (.ofText text (offset + 1) line (col + 1)) := by
  have hpast : offset - text.length + 1 - (text.drop offset).length =
      offset + 1 - text.length := by
    rw [List.length_drop]
    omega
  simp only [beyond, Cursor.ofText, List.tail_drop, hpast]

theorem beyond_movesOver (text : List Char) : beyond.MovesOver text := by
  rintro _ v after ⟨offset, line, col, rfl⟩ h
  rw [beyond_ofText] at h
  cases h
  exact ⟨⟨offset + 1, line, col + 1, rfl⟩, Nat.le_succ offset⟩

/-- Links that always go on come to no end, so there is no answer. -/
theorem not_longestList_beyond (c : Cursor) (reply : Reply (List Unit)) :
    ¬ LongestList position beyond c reply := by
  have hdangles : ∀ last, ¬ Dangles position beyond last := by
    intro last h
    cases h with
    | noSeparator h => cases h
    | noItem _ h => cases h
    | still h hstill =>
      obtain ⟨_, _, hs, hi⟩ := h
      cases hs
      cases hi
      exact absurd hstill (Nat.succ_ne_self _)
  have hfails : ∀ last fault, ¬ LinkFails position beyond last fault := by
    intro last fault h
    cases h with
    | separator h => cases h
    | item _ h => cases h
  intro h
  cases h with
  | unmatched h => cases h
  | failed h => cases h
  | matched _ _ hd => exact hdangles _ hd
  | linkFailed _ _ hf => exact hfails _ _ hf

/-- **Moving over the text is not enough for a list, and a list may end where a separator ends.**
Parsers that only move on, but also beyond the end of the text, may have no longest list: the loop
over them does not end. And an item that reads nothing is an item: after a separator it ends the
list where the separator ends. -/
theorem sepBy1_beyond :
    ((∀ text, position.MovesOver text) ∧ (∀ text, beyond.MovesOver text) ∧
      (∀ reply, ¬ LongestList position beyond (.ofText "".toList 0 1 1) reply) ∧
      sepBy1 position beyond (.ofText "".toList 0 1 1) = .failed .endless) ∧
    sepBy1 (tag ",") (optional (tag "a")) (.ofText "a,".toList 0 1 1) =
        .matched [some "a", none] (.ofText "a,".toList 2 1 3) ∧
      tag "," (.ofText "a,".toList 1 1 2) = .matched "," (.ofText "a,".toList 2 1 3) := by
  have hposition : position.Forward := Ensures.position.forward
  refine ⟨⟨fun text => (hposition.staysIn text).movesOver, beyond_movesOver,
    not_longestList_beyond _, ?_⟩, ?_, ?_⟩ <;> decide +kernel

end MipsSource.Parser
