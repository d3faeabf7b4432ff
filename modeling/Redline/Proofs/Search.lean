import Mathlib.Data.List.Chain
import Redline.Pattern.Search

/-!
# Matches from left to right

A part of a pattern only moves forward: whatever it lets the rest of the pattern match, the rest
starts at a position that is not before its own.  It follows that the matches of a search lie within
the text one behind the other.
-/

namespace Redline.Pattern

/-! ## Steps that move forward -/

/-- Whenever a step lets the rest match, the rest starts between the position of the step and the
end of the text. -/
def Step.Forward (size : Nat) (step : Step) : Prop :=
  ∀ i caps k out, i ≤ size → step i caps k = some out →
    ∃ j caps', i ≤ j ∧ j ≤ size ∧ k j caps' = some out

namespace Step.Forward

variable {size : Nat} {a b body : Step}

theorem skip : Forward size fun i caps k => k i caps :=
  fun i caps _ _ hi hrun => ⟨i, caps, Nat.le_refl i, hi, hrun⟩

theorem andThen (ha : a.Forward size) (hb : b.Forward size) :
    Forward size fun i caps k => a i caps fun j caps' => b j caps' k := by
  intro i caps k out hi hrun
  obtain ⟨j, caps', hj, hjsize, hrest⟩ := ha i caps _ out hi hrun
  obtain ⟨l, caps'', hl, hlsize, hk⟩ := hb j caps' k out hjsize hrest
  exact ⟨l, caps'', Nat.le_trans hj hl, hlsize, hk⟩

theorem orElse (ha : a.Forward size) (hb : b.Forward size) :
    Forward size fun i caps k => (a i caps k).or (b i caps k) := by
  intro i caps k out hi hrun
  rcases Option.or_eq_some_iff.1 hrun with hfirst | ⟨-, hsecond⟩
  · exact ha i caps k out hi hfirst
  · exact hb i caps k out hi hsecond

theorem accept
    (h : body.Forward size) {i j : Nat} {caps caps' : Captures} (hi : i ≤ size)
    (hrun : body i caps accept = some (j, caps')) :
    i ≤ j ∧ j ≤ size := by
  obtain ⟨j', caps'', hle, hsize, hout⟩ := h i caps _ _ hi hrun
  cases hout
  exact ⟨hle, hsize⟩

theorem times (h : body.Forward size) (n : Nat) : (times body n).Forward size := by
  induction n with
  | zero => exact skip
  | succ n ih => exact h.andThen ih

theorem moreThenRest
    (h : body.Forward size) (n : Nat) (last : Option Nat) :
    (moreThenRest body n last).Forward size := by
  induction n generalizing last with
  | zero => exact skip
  | succ n ih =>
    intro i caps k out hi hrun
    rw [Pattern.moreThenRest] at hrun
    split at hrun
    · exact skip i caps k out hi hrun
    · exact (h.andThen (ih (some i))).orElse skip i caps k out hi hrun

theorem restThenMore
    (h : body.Forward size) (n : Nat) (last : Option Nat) :
    (restThenMore body n last).Forward size := by
  induction n generalizing last with
  | zero => exact skip
  | succ n ih =>
    intro i caps k out hi hrun
    rw [Pattern.restThenMore] at hrun
    split at hrun
    · rw [Option.or_none] at hrun
      exact skip i caps k out hi hrun
    · exact skip.orElse (h.andThen (ih (some i))) i caps k out hi hrun

theorem committed
    (h : body.Forward size) (n : Nat) (last : Option Nat) {i : Nat} (caps : Captures)
    (hi : i ≤ size) :
    i ≤ (committed body n last i caps).1 ∧ (committed body n last i caps).1 ≤ size := by
  induction n generalizing last i caps with
  | zero => exact ⟨Nat.le_refl i, hi⟩
  | succ n ih =>
    rw [Pattern.committed]
    split
    · exact ⟨Nat.le_refl i, hi⟩
    · split
      next j caps' hround =>
        obtain ⟨hj, hjsize⟩ := h.accept hi hround
        obtain ⟨hle, hsize⟩ := ih (some i) caps' hjsize
        exact ⟨Nat.le_trans hj hle, hsize⟩
      next => exact ⟨Nat.le_refl i, hi⟩

theorem committedTimes
    (h : body.Forward size) (n : Nat) {i j : Nat} {caps caps' : Captures} (hi : i ≤ size)
    (hrun : committedTimes body n i caps = some (j, caps')) :
    i ≤ j ∧ j ≤ size := by
  induction n generalizing i caps with
  | zero =>
    cases hrun
    exact ⟨Nat.le_refl _, hi⟩
  | succ n ih =>
    rw [Pattern.committedTimes] at hrun
    split at hrun
    next l caps'' hround =>
      obtain ⟨hl, hlsize⟩ := h.accept hi hround
      obtain ⟨hle, hsize⟩ := ih hlsize hrun
      exact ⟨Nat.le_trans hl hle, hsize⟩
    next => cases hrun

end Step.Forward

/-- Every part of a pattern moves forward. -/
theorem Node.forward_run (s : Subject) (node : Node) : Step.Forward s.size (node.run s) := by
  induction node with
  | empty => exact .skip
  | one cls =>
    intro i caps k out hi hrun
    rw [Node.run] at hrun
    split at hrun
    next c hc =>
      split at hrun
      · have hlt := (Array.getElem?_eq_some_iff.1 hc).1
        exact ⟨i + 1, caps, Nat.le_succ i, hlt, hrun⟩
      · cases hrun
    next => cases hrun
  | anchor a =>
    intro i caps k out hi hrun
    rw [Node.run] at hrun
    split at hrun
    · exact ⟨i, caps, Nat.le_refl i, hi, hrun⟩
    · cases hrun
  | seq a b iha ihb => exact iha.andThen ihb
  | alt a b iha ihb => exact iha.orElse ihb
  | group index body ih =>
    intro i caps k out hi hrun
    obtain ⟨j, caps', hj, hjsize, hk⟩ := ih i caps _ out hi hrun
    exact ⟨j, _, hj, hjsize, hk⟩
  | backref index f =>
    intro i caps k out hi hrun
    rw [Node.run] at hrun
    split at hrun
    next start stop _ =>
      split at hrun
      next hrepeats =>
        have hsize : i + (stop - start) ≤ s.size := by
          simp only [repeatsAt, Bool.and_eq_true, decide_eq_true_eq] at hrepeats
          exact hrepeats.1
        exact ⟨_, caps, Nat.le_add_right i _, hsize, hrun⟩
      next => cases hrun
    next => cases hrun
  | look behind negated body ih =>
    intro i caps k out hi hrun
    simp only [Node.run] at hrun
    split at hrun
    next caps' _ => exact ⟨i, caps', Nat.le_refl i, hi, hrun⟩
    next => exact ⟨i, caps, Nat.le_refl i, hi, hrun⟩
    next => cases hrun
  | atomic body ih =>
    intro i caps k out hi hrun
    rw [Node.run] at hrun
    split at hrun
    next j caps' hbody =>
      obtain ⟨hj, hjsize⟩ := ih.accept hi hbody
      exact ⟨j, caps', hj, hjsize, hrun⟩
    next => cases hrun
  | loop least most greed body ih =>
    intro i caps k out hi hrun
    cases greed with
    | greedy => exact ((ih.times least).andThen (ih.moreThenRest _ none)) i caps k out hi hrun
    | «lazy» => exact ((ih.times least).andThen (ih.restThenMore _ none)) i caps k out hi hrun
    | possessive =>
      rw [Node.run] at hrun
      dsimp only at hrun
      split at hrun
      next j caps' hrequired =>
        obtain ⟨hj, hjsize⟩ := ih.committedTimes least hi hrequired
        obtain ⟨hl, hlsize⟩ := ih.committed (extraRounds s.size least most) none caps' hjsize
        exact ⟨_, _, Nat.le_trans hj hl, hlsize, hrun⟩
      next => cases hrun
  | ifGroup index yes no ihyes ihno =>
    intro i caps k out hi hrun
    rw [Node.run] at hrun
    split at hrun
    · exact ihyes i caps k out hi hrun
    · exact ihno i caps k out hi hrun

/-! ## Matches of a search -/

section Search

variable (p : Pattern) (s : Subject)

theorem searchFrom_bounds
    {i start stop : Nat} {nonempty : Bool} {caps : Captures}
    (h : p.searchFrom s i nonempty = some (start, stop, caps)) :
    i ≤ start ∧ start ≤ stop ∧ stop ≤ s.size := by
  obtain ⟨j, hj, hmatch⟩ := List.exists_of_findSome?_eq_some h
  obtain ⟨outcome, hrun, hout⟩ := Option.map_eq_some_iff.1 hmatch
  cases hout
  rw [List.mem_range'_1] at hj
  obtain ⟨l, caps', hl, hlsize, hk⟩ := p.root.forward_run s start [] _ _ (by omega) hrun
  split at hk
  · cases hk
  · cases hk
    exact ⟨hj.1, hl, hlsize⟩

theorem matchesFrom_bounds
    (text : Text) (budget i : Nat) (nonempty : Bool) :
    ∀ m ∈ p.matchesFrom text s budget i nonempty,
      i ≤ m.start ∧ m.start ≤ m.stop ∧ m.stop ≤ s.size := by
  induction budget generalizing i nonempty with
  | zero => simp [matchesFrom]
  | succ budget ih =>
    rw [matchesFrom]
    split
    next => simp
    next start stop caps hsearch =>
      have hbounds := p.searchFrom_bounds s hsearch
      intro m hm
      rcases List.mem_cons.1 hm with rfl | hm
      · exact hbounds
      · obtain ⟨hstart, hrest⟩ := ih stop (start == stop) m hm
        exact ⟨by omega, hrest⟩

theorem pairwise_matchesFrom
    (text : Text) (budget i : Nat) (nonempty : Bool) :
    (p.matchesFrom text s budget i nonempty).Pairwise fun a b => a.stop ≤ b.start := by
  induction budget generalizing i nonempty with
  | zero => exact .nil
  | succ budget ih =>
    rw [matchesFrom]
    split
    next => exact .nil
    next start stop caps hsearch =>
      exact .cons (fun m hm => (p.matchesFrom_bounds s text budget stop _ m hm).1) (ih stop _)

end Search

/-- Every match lies within the text. -/
theorem findAll_bounds
    (p : Pattern) {text : Text} {m : Match} (h : m ∈ p.findAll text) :
    m.start ≤ m.stop ∧ m.stop ≤ text.length := by
  obtain ⟨-, hle, hsize⟩ := p.matchesFrom_bounds text.toArray text _ 0 false m h
  exact ⟨hle, by simpa using hsize⟩

/-- Every match ends no later than the next one starts. -/
theorem pairwise_findAll (p : Pattern) (text : Text) :
    (p.findAll text).Pairwise fun a b => a.stop ≤ b.start :=
  p.pairwise_matchesFrom text.toArray text _ 0 false

end Redline.Pattern
