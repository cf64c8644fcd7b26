import VDK.DoWhile
import Mathlib.Logic.Relation
import Mathlib.Data.List.Nodup

/-!
# Chains of links

A link table gives for every key the next key, or none where a chain ends. Climbing from
a key ends within `n` links exactly when no key that is reached lies on a cycle and at most
`n` keys are reached. A loop that follows the links visits the keys reached, in order.
-/
namespace LinkChain
open DoWhile Relation

variable {κ : Type} {next : κ → Option κ}

def climb (next : κ → Option κ) : Nat → κ → Option κ
  | 0, c => some c
  | n + 1, c => (next c).bind (climb next n)

def Linked (next : κ → Option κ) (c d : κ) : Prop := next c = some d

theorem climb_add (m n : Nat) (c : κ) :
    climb next (m + n) c = (climb next m c).bind (climb next n) := by
  induction m generalizing c with
  | zero =>
      rw [Nat.zero_add]
      rfl
  | succ m ih =>
      rw [Nat.succ_add, climb, climb, Option.bind_assoc]
      congr 1
      funext d
      exact ih d

theorem climb_succ (n : Nat) (c : κ) : climb next (n + 1) c = (climb next n c).bind next := by
  rw [climb_add]
  congr 1
  funext d
  exact Option.bind_fun_some (next d)

theorem reach_iff {c d : κ} : ReflTransGen (Linked next) c d ↔ ∃ n, climb next n c = some d := by
  constructor
  · intro reach
    induction reach with
    | refl => exact ⟨0, rfl⟩
    | @tail d e _ link ih =>
        obtain ⟨n, there⟩ := ih
        refine ⟨n + 1, ?_⟩
        rw [climb_succ, there]
        exact link
  · rintro ⟨n, there⟩
    induction n generalizing d with
    | zero =>
        rw [Option.some.inj there]
    | succ n ih =>
        rw [climb_succ] at there
        obtain ⟨e, before, link⟩ := Option.bind_eq_some_iff.mp there
        exact (ih before).tail link

theorem cycle_iff {c : κ} : TransGen (Linked next) c c ↔ ∃ n, climb next (n + 1) c = some c := by
  rw [TransGen.head'_iff]
  constructor
  · rintro ⟨d, link, back⟩
    obtain ⟨n, there⟩ := reach_iff.mp back
    refine ⟨n, ?_⟩
    rw [climb, link]
    exact there
  · rintro ⟨n, around⟩
    obtain ⟨d, link, there⟩ := Option.bind_eq_some_iff.mp around
    exact ⟨d, link, reach_iff.mpr ⟨n, there⟩⟩

theorem climb_none_of_le {m n : Nat} {c : κ} (ended : climb next m c = none) (more : m ≤ n) :
    climb next n c = none := by
  obtain ⟨k, rfl⟩ := Nat.exists_eq_add_of_le more
  rw [climb_add, ended]
  rfl

/-- Tables that agree on the keys reached are climbed in the same way. -/
theorem climb_congr {other : κ → Option κ} {c : κ}
    (same : ∀ d, ReflTransGen (Linked next) c d → other d = next d) (n : Nat) :
    climb other n c = climb next n c := by
  induction n generalizing c with
  | zero => rfl
  | succ n ih =>
      rw [climb, climb, same c .refl]
      cases link : next c with
      | none => rfl
      | some d => exact ih fun e reach => same e (reach.head link)

theorem climb_cycle {n : Nat} {c : κ} (around : climb next n c = some c) (k : Nat) :
    climb next (n * k) c = some c := by
  induction k with
  | zero => rfl
  | succ k ih =>
      rw [Nat.mul_succ, climb_add, ih]
      exact around

/-- No key reached from `c` lies on a cycle. -/
def Acyclic (next : κ → Option κ) (c : κ) : Prop :=
  ∀ d, ReflTransGen (Linked next) c d → ¬TransGen (Linked next) d d

def AtMost (next : κ → Option κ) (n : Nat) (c : κ) : Prop :=
  ∃ cs : List κ, cs.length ≤ n ∧ ∀ d, ReflTransGen (Linked next) c d → d ∈ cs

/-- A chain that has not ended after `n` links comes back to a key or reaches `n + 1` keys. -/
theorem not_atMost_of_climb {n : Nat} {c e : κ} (acyclic : Acyclic next c)
    (there : climb next n c = some e) : ¬AtMost next n c := by
  rintro ⟨cs, short, all⟩
  have reached : ∀ k, k ≤ n → ∃ d, climb next k c = some d := by
    intro k early
    rw [← Option.ne_none_iff_exists']
    intro ended
    rw [climb_none_of_le ended early] at there
    exact nomatch there
  let key : Nat → κ := fun k => (climb next k c).getD c
  have keyed : ∀ k, k ≤ n → climb next k c = some (key k) := by
    intro k early
    obtain ⟨d, here⟩ := reached k early
    rw [here]
    simp only [key, here, Option.getD_some]
  have forward : ∀ i j, i < j → j ≤ n → key i ≠ key j := by
    intro i j less late same
    obtain ⟨m, rfl⟩ := Nat.exists_eq_add_of_le less
    have first := keyed i (by omega)
    have second := keyed (i + (m + 1)) (by omega)
    rw [climb_add, first, Option.bind_some] at second
    rw [show i.succ + m = i + (m + 1) by omega] at same
    rw [← same] at second
    exact acyclic _ (reach_iff.mpr ⟨i, first⟩) (cycle_iff.mpr ⟨m, second⟩)
  have distinct : ((List.range (n + 1)).map key).Nodup := by
    refine List.Nodup.map_on ?_ List.nodup_range
    intro i hi j hj same
    rw [List.mem_range] at hi hj
    by_contra other
    rcases Nat.lt_or_gt_of_ne other with less | less
    · exact forward i j less (by omega) same
    · exact forward j i less (by omega) same.symm
  have inside : (List.range (n + 1)).map key ⊆ cs := by
    intro d member
    obtain ⟨k, hk, rfl⟩ := List.mem_map.mp member
    rw [List.mem_range] at hk
    exact all _ (reach_iff.mpr ⟨k, keyed k (by omega)⟩)
  have many := distinct.length_le_of_subset inside
  rw [List.length_map, List.length_range] at many
  omega

/-- Climbing ends within `n` links if and only if there is no cycle and there are at most
`n` keys on the way. -/
theorem climb_eq_none_iff {n : Nat} {c : κ} :
    climb next n c = none ↔ Acyclic next c ∧ AtMost next n c := by
  constructor
  · intro ended
    refine ⟨fun d reach around => ?_, (List.range n).filterMap (climb next · c), ?_, ?_⟩
    · obtain ⟨m, there⟩ := reach_iff.mp reach
      obtain ⟨k, back⟩ := cycle_iff.mp around
      have forever : climb next (m + (k + 1) * n) c = some d := by
        rw [climb_add, there]
        exact climb_cycle back n
      have late : n ≤ m + (k + 1) * n :=
        Nat.le_trans (Nat.le_mul_of_pos_left n (Nat.succ_pos k)) (Nat.le_add_left _ _)
      rw [climb_none_of_le ended late] at forever
      exact nomatch forever
    · exact Nat.le_trans (List.length_filterMap_le _ _) (Nat.le_of_eq List.length_range)
    · intro d reach
      obtain ⟨m, there⟩ := reach_iff.mp reach
      have early : m < n := by
        by_contra late
        rw [climb_none_of_le ended (Nat.not_lt.mp late)] at there
        exact nomatch there
      exact List.mem_filterMap.mpr ⟨m, List.mem_range.mpr early, there⟩
  · rintro ⟨acyclic, few⟩
    by_contra goes
    obtain ⟨e, there⟩ := Option.ne_none_iff_exists'.mp goes
    exact not_atMost_of_climb acyclic there few

section Loops

variable {α : Type} {body : α → α} {go : α → Bool} {key : α → κ} {valid : α → Prop}

/-- Each pass from a valid state takes the link of the state's key, and the loop ends where
there is none. -/
def FollowsLinks (body : α → α) (go : α → Bool) (next : κ → Option κ) (key : α → κ)
    (valid : α → Prop) : Prop :=
  ∀ s, valid s → match next (key s) with
    | none => go (body s) = false
    | some d => go (body s) = true ∧ key (body s) = d ∧ valid (body s)

theorem FollowsLinks.ends (follows : FollowsLinks body go next key valid) {s : α}
    (start : valid s) (last : next (key s) = none) : go (body s) = false := by
  have step := follows s start
  rw [last] at step
  exact step

theorem FollowsLinks.goes (follows : FollowsLinks body go next key valid) {s : α} {d : κ}
    (start : valid s) (link : next (key s) = some d) :
    go (body s) = true ∧ key (body s) = d ∧ valid (body s) := by
  have step := follows s start
  rw [link] at step
  exact step

/-- The loop returns within `n` passes exactly when the chain ends within `n` links. -/
theorem FollowsLinks.returns_iff (follows : FollowsLinks body go next key valid) {n : Nat} {s : α}
    (start : valid s) : (∃ t, doWhile body go n s = some t) ↔ climb next n (key s) = none := by
  induction n generalizing s with
  | zero =>
      constructor
      · rintro ⟨_, absent⟩
        exact nomatch absent
      · exact fun absent => nomatch absent
  | succ n ih =>
      rw [doWhile, climb]
      cases link : next (key s) with
      | none =>
          rw [follows.ends start link, if_neg Bool.false_ne_true]
          exact ⟨fun _ => rfl, fun _ => ⟨_, rfl⟩⟩
      | some d =>
          obtain ⟨goes, same, later⟩ := follows.goes start link
          rw [if_pos goes, ih later, same, Option.bind_some]

/-- Every key reached is the key of a valid state from which a pass is made. -/
theorem FollowsLinks.visits (follows : FollowsLinks body go next key valid) {s : α} {d : κ}
    (start : valid s) (reach : ReflTransGen (Linked next) (key s) d) :
    ∃ n u, key u = d ∧ valid u ∧ Passes body go s n (body u) := by
  induction reach with
  | refl => exact ⟨1, s, rfl, start, .first⟩
  | @tail d e _ link ih =>
      obtain ⟨n, u, rfl, ok, passes⟩ := ih
      obtain ⟨goes, same, later⟩ := follows.goes ok link
      exact ⟨n + 1, body u, same, later, .again passes goes⟩

/-- Every pass is made from a valid state whose key is reached, with any fact `J` that passes
from such states carry on. -/
theorem FollowsLinks.visited (follows : FollowsLinks body go next key valid) {s t : α} {n : Nat}
    (start : valid s) {J : α → Prop} (first : J s)
    (step : ∀ u, ReflTransGen (Linked next) (key s) (key u) → valid u → J u → J (body u))
    (passes : Passes body go s n t) :
    ∃ u, (ReflTransGen (Linked next) (key s) (key u) ∧ valid u ∧ J u) ∧ t = body u := by
  refine passes.invariant
    (I := fun u => ReflTransGen (Linked next) (key s) (key u) ∧ valid u ∧ J u)
    ⟨.refl, start, first⟩ ?_
  rintro u ⟨reach, ok, fact⟩ goes
  cases link : next (key u) with
  | none =>
      rw [follows.ends ok link] at goes
      exact nomatch goes
  | some d =>
      obtain ⟨_, same, later⟩ := follows.goes ok link
      refine ⟨reach.tail ?_, later, step u reach ok fact⟩
      rw [same]
      exact link

end Loops

end LinkChain
