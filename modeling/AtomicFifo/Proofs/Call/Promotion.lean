import AtomicFifo.Proofs.Call.Knowledge

/-!
# Exchanges that succeed, and iterations that do not return

An exchange that succeeds *promotes* a node: it makes it the last one of the chain, or lets the
tail or the head stand on it. The other steps leave the head, the tail and all links as they are.

A call that adds or removes an item goes round a loop until one of its exchanges succeeds. An
iteration begins by reading the tail or the head, and whatever makes it start over shows that
the place it has read first has changed in the meantime, or is changed by the iteration itself.

* `promotes?`, `step_promoted`  what a step does to the head, the tail and the links
* `retries`                     a step that goes back to where the loop begins
* `stale`, `retries_step`       a retry is paid for by a promotion since the iteration began
-/

namespace AtomicFifo

universe u

variable {α : Type u}

/-- What an exchange that succeeds makes of a node. -/
inductive Promotion
  /-- The node behind the last one. -/
  | linked (node : NodeId)
  /-- The node that the tail stands on. -/
  | tail (node : NodeId)
  /-- The node that the head stands on. -/
  | head (node : NodeId)
  deriving DecidableEq, Repr

namespace Promotion

/-- The node that is linked. -/
def linked? : Promotion → Option NodeId
  | linked node => some node
  | _ => none

/-- The node that the tail comes to. -/
def tail? : Promotion → Option NodeId
  | tail node => some node
  | _ => none

/-- The node that the head comes to. -/
def head? : Promotion → Option NodeId
  | head node => some node
  | _ => none

end Promotion

/-- What a promotion does to the shared state; without one the head, the tail and the links stay
as they are. -/
inductive Shared.Promoted (s : Shared α) : Option Promotion → Shared α → Prop
  | rest {s' : Shared α} : s'.head = s.head → s'.tail = s.tail → s'.next = s.next →
      Promoted s none s'
  | linked {n : NodeId} : s.next s.tail = none → s.Apart n →
      Promoted s (some (.linked n)) (s.linkBehind n)
  | tail {m : NodeId} : s.next s.tail = some m → Promoted s (some (.tail m)) { s with tail := m }
  | head {m : NodeId} : s.next s.head = some m → Promoted s (some (.head m)) { s with head := m }

namespace Call

variable {s s' : Shared α} {c : Call α}

/-- The promotion that a step makes, if its exchange succeeds. -/
def promotes? (s : Shared α) : Call α → Option Promotion
  | .helpTail _ tail next => if (s.exchangeTail tail next).2 then some (.tail next) else none
  | .link node tail => if (s.exchangeLink tail node).2 then some (.linked node) else none
  | .swingTail node tail => if (s.exchangeTail tail node).2 then some (.tail node) else none
  | .helpHead head next => if (s.exchangeTail head next).2 then some (.tail next) else none
  | .unlink head next => if (s.exchangeHead head next).2 then some (.head next) else none
  | _ => none

/-- The point at which a loop begins. -/
def opensLoop : Call α → Bool
  | .readTail _ | .readHead => true
  | _ => false

/-- The points of a loop. -/
def looping : Call α → Bool
  | .readTail _ | .readTailLink _ _ | .helpTail _ _ _ | .link _ _ => true
  | .readHead | .readHeadTail _ | .readHeadLink _ _ | .helpHead _ _ | .unlink _ _ => true
  | _ => false

/-- Whether a step ends an iteration that does not return: it leads back to where the loop
begins. -/
def retries (grant : Grant) (s : Shared α) (c : Call α) : Bool :=
  c.looping && (c.step grant s).2.opensLoop

/-- Whether what the present iteration has read is out of date, as far as its own next exchange
will tell. -/
def stale (s : Shared α) : Call α → Bool
  | .readTailLink _ tail => s.tail ≠ tail
  | .helpTail _ tail _ => s.tail ≠ tail
  | .link _ tail => (s.next tail).isSome
  | .readHeadTail head => s.head ≠ head
  | .readHeadLink head tail => s.head ≠ head ∨ s.tail ≠ tail
  | .helpHead head _ => s.tail ≠ head
  | .unlink head _ => s.head ≠ head
  | _ => false

/-! ### What a step promotes -/

/-- An exchange of the tail over a link promotes the tail if it takes place. -/
private theorem exchangeTail_promoted {old new : NodeId} (hnext : s.next old = some new) :
    s.Promoted (if (s.exchangeTail old new).2 then some (.tail new) else none)
      (s.exchangeTail old new).1 := by
  rcases exchangeTail_cases s old new with ⟨rfl, h⟩ | ⟨-, h⟩
  · rw [h]
    exact .tail hnext
  · rw [h]
    exact .rest rfl rfl rfl

/-- Every step makes the promotion that it is said to make, and no other change. -/
theorem step_promoted (memory : Bool) (hk : c.Knows s)
    (hn : ∀ n, c.node? = some n → s.Apart n) :
    s.Promoted (c.promotes? s) (c.step (.ofMemory memory) s).1 := by
  cases c with
  | allocate item =>
    cases memory with
    | false => exact .rest rfl rfl rfl
    | true => exact .rest rfl rfl (funext (Shared.next_push s item))
  | readTailLink node tail =>
    simp only [step]
    split <;> exact .rest rfl rfl rfl
  | helpTail node tail next => exact exchangeTail_promoted hk
  -- Linking succeeds where the tail that was read has no link, and then it is still the tail.
  | link node tail =>
    rcases exchangeLink_cases hk node with ⟨hnone, -, h⟩ | ⟨-, h⟩
    · simp only [step, promotes?, h]
      exact .linked hnone (hn node rfl)
    · simp only [step, promotes?, h]
      exact .rest rfl rfl rfl
  | swingTail node tail => exact exchangeTail_promoted hk
  | readHeadLink head tail =>
    simp only [step]
    split <;> exact .rest rfl rfl rfl
  | helpHead head next => exact exchangeTail_promoted hk
  -- The new head is known to be the successor of the old one.
  | unlink head next =>
    rcases exchangeHead_cases s head next with ⟨rfl, h⟩ | ⟨-, h⟩
    · simp only [step, promotes?, h]
      exact .head hk.1
    · simp only [step, promotes?, h]
      exact .rest rfl rfl rfl
  | _ => exact .rest rfl rfl rfl

/-! ### What a retry costs -/

/-- What an iteration has read goes out of date only by a promotion. -/
theorem stale_promoted {p : Option Promotion} (h : s.Promoted p s') (c : Call α) :
    (c.stale s').toNat ≤ (c.stale s).toNat + p.toList.length := by
  cases h with
  | rest hhead htail hnext =>
    have hsame : c.stale s' = c.stale s := by
      cases c <;> simp only [stale, hhead, htail, hnext]
    rw [hsame]
    exact Nat.le_add_right _ _
  | _ => exact Nat.le_add_left_of_le (Bool.toNat_le _)

/-- An exchange of the tail that fails found another tail than it expected. -/
private theorem exchangeTail_paid (old new : NodeId) :
    1 ≤ (if (s.exchangeTail old new).2 then some (Promotion.tail new) else none).toList.length +
      (decide (s.tail ≠ old)).toNat := by
  rcases exchangeTail_cases s old new with ⟨-, h⟩ | ⟨hne, h⟩
  · simp [h]
  · simp [hne]

/-- A step that goes back promotes a node itself, or what its iteration has read is out of date.
At the point where a loop begins nothing has been read. -/
theorem retries_step (memory : Bool) (hk : c.Knows s) :
    (c.retries (.ofMemory memory) s).toNat +
        ((c.step (.ofMemory memory) s).2.stale (c.step (.ofMemory memory) s).1).toNat ≤
      (c.promotes? s).toList.length + (c.stale s).toNat := by
  cases c with
  | allocate item => cases memory <;> exact Nat.zero_le _
  | readTail node => simp [retries, step, opensLoop, stale]
  | readTailLink node tail =>
    cases hnext : s.next tail <;> simp [retries, step, opensLoop, stale, hnext]
  | helpTail node tail next => exact exchangeTail_paid tail next
  | link node tail =>
    rcases exchangeLink_cases hk node with ⟨-, -, h⟩ | ⟨hsome, h⟩
    · simp [retries, step, h, opensLoop, stale]
    · simp [retries, looping, step, h, opensLoop, stale, hsome]
  | readHead => simp [retries, step, opensLoop, stale]
  | readHeadTail head => simp [retries, step, opensLoop, stale]
  | readHeadLink head tail =>
    cases hnext : s.next head with
    | none => simp [retries, step, opensLoop, stale, hnext]
    | some next =>
      -- Of the two places that were read the iteration goes on with one.
      by_cases heq : head = tail
      · subst heq
        by_cases ht : s.tail = head <;> simp [retries, step, opensLoop, stale, hnext, ht]
      · by_cases hh : s.head = head <;> simp [retries, step, opensLoop, stale, hnext, heq, hh]
  | helpHead head next => exact exchangeTail_paid head next
  | unlink head next =>
    rcases exchangeHead_cases s head next with ⟨rfl, h⟩ | ⟨hne, h⟩
    · simp [retries, step, h, opensLoop, stale]
    · simp [retries, looping, step, h, opensLoop, stale, hne]
  | _ => exact Nat.zero_le _

end Call

end AtomicFifo
