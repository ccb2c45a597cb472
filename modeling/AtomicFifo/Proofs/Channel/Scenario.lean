import AtomicFifo.Channel.Stream
import AtomicFifo.Proofs.Channel.Agreement

/-!
# What the scenarios with one thread move

A batch sends as many integers as it is told to and receives each of them back, in groups that
fill the channel and empty it again. It does so on every channel that is first in, first out, and
never finds it full or empty: the items outstanding never exceed the capacity. A ping is the same
in groups of one.

* `Channel.Carries`            a channel that is first in, first out
* `Fits`                       calls that never find the channel full or empty
* `Fits.perform`               such calls on any channel that carries them
* `Fits.group`                 a group that is no longer than the channel
* `filterMap_batch`            the integers that a batch sends
* `scenarios_move`             batches and pings
-/

namespace AtomicFifo

universe u v

variable {σ : Type u}

/-- A channel for so many items that is first in, first out: in each state it holds a list of
items. A fresh one holds none. While it holds fewer than its capacity a send appends an item, and
a receive always answers the oldest item, if there is one, and takes it out. -/
structure Channel.Carries (ch : Channel σ) (capacity : Word) (Holds : σ → List Word → Prop) :
    Prop where
  create : Holds (ch.create capacity) []
  send : ∀ {s : σ} {l : List Word} (v : Word), Holds s l → l.length < capacity.toNat →
    (ch.send true s v).2 = .ok ∧ Holds (ch.send true s v).1 (l ++ [v])
  receive : ∀ {s : σ} {l : List Word}, Holds s l →
    (ch.receive s).2 = l.head? ∧ Holds (ch.receive s).1 l.tail

namespace Channel

/-- A linked queue carries any number of items. -/
private theorem carries_linked {α : Type u} (f : Facade Word α) (capacity : Word) :
    (linked f).Carries capacity fun q l => integers f q = l where
  create := rfl
  send v h _ := by
    subst h
    obtain ⟨hanswer, hitems⟩ := linked_step f _ (.send true v)
    exact ⟨Answer.sent.inj hanswer, hitems⟩
  receive h := by
    subst h
    obtain ⟨hanswer, hitems⟩ := linked_step f _ .receive
    exact ⟨Answer.received.inj hanswer, hitems⟩

/-- A bounded buffer carries as many items as its capacity. -/
theorem carries_bounded (capacity : Word) : bounded.Carries capacity (Buffers capacity) where
  create := ⟨rfl, rfl, rfl⟩
  send := fun {_ l} v h hroom => by
    have horderly : Step.Orderly capacity.toNat l (.send true v) := ⟨rfl, hroom⟩
    obtain ⟨hanswer, hitems⟩ := bounded_step h horderly
    exact ⟨Answer.sent.inj hanswer, hitems⟩
  receive := fun {_ l} h => by
    have horderly : Step.Orderly capacity.toNat l .receive := trivial
    obtain ⟨hanswer, hitems⟩ := bounded_step h horderly
    exact ⟨Answer.received.inj hanswer, hitems⟩

end Channel

/-- The value that a call sends. -/
def ChannelCall.value? : ChannelCall → Option Word
  | .send v => some v
  | .receive => none

namespace Scenario

variable {ch : Channel σ} {capacity : Word} {Holds : σ → List Word → Prop} {room : Nat}
  {l l' l'' vs : List Word} {calls more : List ChannelCall}

/-! ### Calls that fit a channel -/

/-- Calls that find `l` in the channel and leave `l'` in it, where each send finds fewer items than
there is room for and each receive finds an item. -/
inductive Fits (room : Nat) : List Word → List ChannelCall → List Word → Prop
  | nil (l : List Word) : Fits room l [] l
  | send {l l' : List Word} {v : Word} {calls : List ChannelCall} (hroom : l.length < room)
      (h : Fits room (l ++ [v]) calls l') : Fits room l (.send v :: calls) l'
  | receive {l l' : List Word} {v : Word} {calls : List ChannelCall}
      (h : Fits room l calls l') : Fits room (v :: l) (.receive :: calls) l'

/-- Calls that fit, followed by calls that fit what they leave, fit. -/
theorem Fits.append (h : Fits room l calls l') (h' : Fits room l' more l'') :
    Fits room l (calls ++ more) l'' := by
  induction h with
  | nil => exact h'
  | send hroom _ ih => exact .send hroom (ih h')
  | receive _ ih => exact .receive (ih h')

/-- Calls that fit fit up to any moment. -/
theorem Fits.take (h : Fits room l calls l') (k : Nat) : ∃ m, Fits room l (calls.take k) m := by
  -- By induction on the calls: either none of them is made, or the first is and some of the rest.
  induction h generalizing k with
  | nil l => exact ⟨l, by simpa using Fits.nil l⟩
  | @send l _ v calls hroom _ ih =>
    cases k with
    | zero => exact ⟨l, .nil l⟩
    | succ k =>
      obtain ⟨m, hm⟩ := ih k
      exact ⟨m, .send hroom hm⟩
  | @receive l _ v calls _ ih =>
    cases k with
    | zero => exact ⟨v :: l, .nil _⟩
    | succ k =>
      obtain ⟨m, hm⟩ := ih k
      exact ⟨m, .receive hm⟩

/-- Sends fit as long as there is room for all their values. -/
private theorem Fits.sends (h : l.length + vs.length ≤ room) :
    Fits room l (vs.map .send) (l ++ vs) := by
  induction vs generalizing l with
  | nil => simpa using Fits.nil l
  | cons v vs ih =>
    rw [List.length_cons] at h
    have hrest : Fits room (l ++ [v]) (vs.map .send) (l ++ [v] ++ vs) :=
      ih (by rw [List.length_append, List.length_singleton]; omega)
    rw [List.append_assoc, List.singleton_append] at hrest
    exact .send (by omega) hrest

/-- As many receives as there are values empty the channel. -/
private theorem Fits.receives (l : List Word) :
    Fits room l (List.replicate l.length .receive) [] := by
  induction l with
  | nil => exact .nil []
  | cons v l ih => exact .receive ih

/-- The integers that a group sends. -/
def values (size : Nat) : List Word := (List.range size).map UInt64.ofNat

/-- One more value is added at the end. -/
theorem values_succ (n : Nat) : values (n + 1) = values n ++ [UInt64.ofNat n] := by
  simp [values, List.range_succ]

/-- Fewer values are the first of more values. -/
theorem values_prefix {n m : Nat} (h : n ≤ m) : values n <+: values m := by
  obtain ⟨k, rfl⟩ := Nat.exists_eq_add_of_le h
  rw [values, values, List.range_add, List.map_append]
  exact List.prefix_append _ _

/-- There are as many values as asked for. -/
theorem length_values (n : Nat) : (values n).length = n := by simp [values]

/-- A group that is no longer than the channel finds it empty and leaves it empty. -/
theorem Fits.group {size : Nat} (h : size ≤ room) : Fits room [] (group size) [] := by
  have hlen := length_values size
  have hsends : Fits room [] ((values size).map .send) (values size) :=
    .sends (by simpa [hlen] using h)
  have hreceives : Fits room (values size) (List.replicate size .receive) [] := by
    have hreceives : Fits room _ _ _ := .receives (values size)
    rwa [hlen] at hreceives
  have hgroup := hsends.append hreceives
  rwa [values, List.map_map] at hgroup

/-- Groups of calls that each leave the channel empty fit one after the other. -/
private theorem Fits.flatMap {β : Type v} {xs : List β} {g : β → List ChannelCall}
    (h : ∀ x ∈ xs, Fits room [] (g x) []) : Fits room [] (xs.flatMap g) [] := by
  induction xs with
  | nil => exact .nil []
  | cons x xs ih =>
    exact (h x (List.mem_cons_self ..)).append (ih fun y hy => h y (List.mem_cons_of_mem _ hy))

/-! ### Calls on a channel -/

/-- After these calls on a fresh channel: all of them have returned, the receives have answered
`got`, the channel holds `l`, and what was sent is what has been answered and then what is still
in the channel, which is no more than its capacity. -/
structure Stands (ch : Channel σ) (Holds : σ → List Word → Prop) (capacity : Word)
    (calls : List ChannelCall) (s : σ) (got l : List Word) : Prop where
  performed : perform ch calls [] [] (ch.create capacity) =
    (s, calls.reverse, (got.map some).reverse, .ok)
  holds : Holds s l
  balance : calls.filterMap ChannelCall.value? = got ++ l
  room : l.length ≤ capacity.toNat

/-- A send that succeeds is written down, and the calls go on behind it. -/
private theorem perform_send {s : σ} {v : Word} (h : (ch.send true s v).2 = .ok)
    (begun : List ChannelCall) (received : List (Option Word)) :
    perform ch (.send v :: calls) begun received s =
      perform ch calls (.send v :: begun) received (ch.send true s v).1 := by
  rcases hsend : ch.send true s v with ⟨s', how⟩
  rw [hsend] at h
  obtain rfl : how = .ok := h
  rw [perform, hsend]

/-- A receive is written down with what it finds, and the calls go on behind it. -/
private theorem perform_receive (s : σ) (begun : List ChannelCall) (received : List (Option Word)) :
    perform ch (.receive :: calls) begun received s =
      perform ch calls (.receive :: begun) ((ch.receive s).2 :: received) (ch.receive s).1 := rfl

/-- Calls that fit are performed to their end on every channel that carries them, and each receive
is answered with the next integer sent. -/
theorem Fits.perform (h : Fits capacity.toNat l calls l') (hch : ch.Carries capacity Holds)
    {s : σ} (hs : Holds s l) (hroom : l.length ≤ capacity.toNat) (begun : List ChannelCall)
    (received : List (Option Word)) :
    ∃ s' got, perform ch calls begun received s =
        (s', calls.reverse ++ begun, (got.map some).reverse ++ received, .ok) ∧
      Holds s' l' ∧ l ++ calls.filterMap ChannelCall.value? = got ++ l' ∧
      l'.length ≤ capacity.toNat := by
  induction h generalizing s begun received with
  | nil l => exact ⟨s, [], rfl, hs, by simp, hroom⟩
  | @send l l' v calls hlt _ ih =>
    -- The channel has room for what the call finds room for, so the send returns.
    obtain ⟨hsent, hs'⟩ := hch.send v hs hlt
    have hlen : (l ++ [v]).length ≤ capacity.toNat := by
      rw [List.length_append, List.length_singleton]
      exact hlt
    obtain ⟨s', got, hperform, hholds, hbalance, hroom⟩ := ih hs' hlen (.send v :: begun) received
    refine ⟨s', got, ?_, hholds, ?_, hroom⟩
    · rw [perform_send hsent, hperform]
      simp
    · simpa [ChannelCall.value?] using hbalance
  | @receive l l' v calls _ ih =>
    -- The item that stands first is the one that the list of calls expects.
    obtain ⟨hreceived, hs'⟩ := hch.receive hs
    have hlen : l.length ≤ capacity.toNat := Nat.le_of_succ_le hroom
    obtain ⟨s', got, hperform, hholds, hbalance, hroom⟩ :=
      ih hs' hlen (.receive :: begun) (some v :: received)
    refine ⟨s', v :: got, ?_, hholds, ?_, hroom⟩
    · rw [perform_receive, hreceived, List.head?_cons, hperform]
      simp
    · rw [List.filterMap_cons_none rfl, List.cons_append, List.cons_append, hbalance]

/-- On a channel that carries, calls that fit are all performed. -/
private theorem Fits.stands (h : Fits capacity.toNat [] calls l) (hch : ch.Carries capacity Holds) :
    ∃ s got, Stands ch Holds capacity calls s got l := by
  obtain ⟨s, got, hperform, hholds, hbalance, hroom⟩ :=
    h.perform hch hch.create (Nat.zero_le _) [] []
  exact ⟨s, got, by simpa using hperform, hholds, by simpa using hbalance, hroom⟩

/-- A record of a scenario that has moved these values over one channel of this capacity: all
calls have returned, so none has waited, each value was sent and received back in its turn, and no
receive has found the channel empty. -/
structure Moved (capacity : Word) (values : List Word) (r : Record) : Prop where
  capacities : r.capacities = [capacity]
  outcome : r.outcome = .ok
  sent : r.sent = values
  received : r.received = values.map some

/-- A record of a scenario on this channel. At every moment the channel has held what was
outstanding, never more than its capacity, and in the end nothing. -/
structure Moves (ch : Channel σ) (Holds : σ → List Word → Prop) (capacity : Word)
    (values : List Word) (r : Record) : Prop extends Moved capacity values r where
  moment : ∀ k, ∃ s got l, Stands ch Holds capacity (r.calls.take k) s got l
  drained : ∃ s, Stands ch Holds capacity r.calls s values []

/-- A scenario whose calls are all performed ends well, with what they received. -/
private theorem play_eq_of_stands {s : σ} {got : List Word}
    (h : Stands ch Holds capacity calls s got l) :
    play ch capacity calls = ⟨[capacity], calls, got.map some, .ok⟩ := by
  rw [play, h.performed]
  simp

/-- Calls that fit, and leave nothing in the channel, move what they send. -/
private theorem Fits.moves (h : Fits capacity.toNat [] calls []) (hch : ch.Carries capacity Holds) :
    Moves ch Holds capacity (calls.filterMap ChannelCall.value?) (play ch capacity calls) ∧
      (play ch capacity calls).calls = calls := by
  obtain ⟨s, got, hstands⟩ := h.stands hch
  have hgot : calls.filterMap ChannelCall.value? = got := by
    simpa using hstands.balance
  rw [hgot, play_eq_of_stands hstands]
  refine ⟨⟨⟨rfl, rfl, hgot, rfl⟩, fun k => ?_, s, hstands⟩, rfl⟩
  -- A part of the calls fits as well, and it leaves what is outstanding.
  obtain ⟨m, hm⟩ := h.take k
  obtain ⟨s', got', hstands'⟩ := hm.stands hch
  exact ⟨s', got', m, hstands'⟩

/-! ### The groups of a batch -/

/-- A group sends its values from zero on. -/
private theorem filterMap_group (size : Nat) :
    (group size).filterMap ChannelCall.value? = values size := by
  have hsends : ∀ l : List Nat, (l.map fun i => ChannelCall.send (UInt64.ofNat i)).filterMap
      ChannelCall.value? = l.map UInt64.ofNat := by
    intro l
    rw [List.filterMap_map]
    exact congrFun (List.filterMap_eq_map (f := UInt64.ofNat)) l
  -- A receive carries no value of its own.
  have hreceives : ∀ n, (List.replicate n ChannelCall.receive).filterMap ChannelCall.value? = [] :=
    fun n => List.filterMap_eq_nil_iff.2 fun c hc => by rw [List.eq_of_mem_replicate hc]; rfl
  rw [group, List.filterMap_append, hsends, hreceives, List.append_nil, values]

/-- The numbers of the places in groups of `b`, the last of which may be shorter. -/
private theorem flatten_replicate_range {b r : Nat} (hr : r < b) (q : Nat) :
    (List.replicate q (List.range b)).flatten ++ List.range r =
      (List.range (q * b + r)).map (· % b) := by
  -- By induction on the number of full groups; the one that is added stands in front.
  induction q with
  | zero =>
    have hmod : ∀ j ∈ List.range r, j % b = j := fun j hj =>
      Nat.mod_eq_of_lt (Nat.lt_trans (List.mem_range.1 hj) hr)
    simp [List.map_congr_left hmod]
  | succ q ih =>
    have hfirst : ∀ j ∈ List.range b, j % b = j := fun j hj =>
      Nat.mod_eq_of_lt (List.mem_range.1 hj)
    rw [Nat.succ_mul, Nat.add_right_comm, Nat.add_comm _ b, List.range_add, List.map_append,
      List.map_congr_left hfirst, List.map_id', List.map_map]
    have hrest : ((· % b) ∘ (b + ·)) = (· % b) := by
      funext j
      simp
    rw [hrest, ← ih, List.replicate_succ, List.flatten_cons, List.append_assoc]

/-- What is put together group by group has a part for each full group and one for the rest. -/
private theorem flatMap_groups {β : Type v} (iters buflen : Word) {g : Nat → List β}
    (hg : g 0 = []) :
    (groups iters buflen).flatMap g =
      (List.replicate (iters.toNat / buflen.toNat) (g buflen.toNat)).flatten ++
        g (iters.toNat % buflen.toNat) := by
  have hrest : (if iters % buflen = 0 then [] else [(iters % buflen).toNat]).flatMap g =
      g (iters.toNat % buflen.toNat) := by
    rw [← UInt64.toNat_mod]
    split
    · rename_i hzero
      rw [hzero]
      exact hg.symm
    · simp
  rw [groups, List.flatMap_append, hrest, UInt64.toNat_div, List.flatMap_def, List.map_replicate]

/-- A batch sends the numbers of the places in its groups, so many as it is told to. -/
theorem filterMap_batch {iters buflen : Word} (hbuflen : 0 < buflen.toNat) :
    (batch iters buflen).filterMap ChannelCall.value? =
      (List.range iters.toNat).map fun j => UInt64.ofNat (j % buflen.toNat) := by
  have hgroups : (batch iters buflen).filterMap ChannelCall.value? =
      (groups iters buflen).flatMap values := by
    rw [batch, List.filterMap_flatMap]
    exact congrArg (List.flatMap · (groups iters buflen)) (funext filterMap_group)
  -- The places that the groups run through are the remainders of the numbers in their order.
  have hplaces : (groups iters buflen).flatMap List.range =
      (List.range iters.toNat).map (· % buflen.toNat) := by
    rw [flatMap_groups iters buflen List.range_zero,
      flatten_replicate_range (Nat.mod_lt _ hbuflen), Nat.div_add_mod']
  have hvalues : (groups iters buflen).flatMap values =
      ((groups iters buflen).flatMap List.range).map UInt64.ofNat := by
    rw [List.map_flatMap]
    rfl
  rw [hgroups, hvalues, hplaces, List.map_map]
  rfl

/-- The letters of a group. -/
private theorem map_letter_group (size : Nat) :
    (group size).map Record.letter = List.replicate size 's' ++ List.replicate size 'r' := by
  simp [group, Record.letter, Function.comp_def, List.map_const']

/-- A batch sends and receives full groups in turn, and one group of the rest. -/
private theorem map_letter_batch (iters buflen : Word) :
    (batch iters buflen).map Record.letter =
      (List.replicate (iters.toNat / buflen.toNat)
        (List.replicate buflen.toNat 's' ++ List.replicate buflen.toNat 'r')).flatten ++
          (List.replicate (iters.toNat % buflen.toNat) 's' ++
            List.replicate (iters.toNat % buflen.toNat) 'r') := by
  rw [batch, List.map_flatMap]
  simp only [map_letter_group]
  exact flatMap_groups iters buflen rfl

/-- No group of a batch is larger than the buffer. -/
private theorem le_of_mem_groups {iters buflen : Word} (hbuflen : 0 < buflen.toNat) {size : Nat}
    (h : size ∈ groups iters buflen) : size ≤ buflen.toNat := by
  rcases List.mem_append.1 h with h | h
  · exact Nat.le_of_eq (List.eq_of_mem_replicate h)
  · split at h
    · cases h
    · rw [List.mem_singleton.1 h, UInt64.toNat_mod]
      exact Nat.le_of_lt (Nat.mod_lt _ hbuflen)

/-- A batch on a channel that is first in, first out. -/
private theorem playBatch_moves (hch : ch.Carries capacity Holds) (hcapacity : capacity ≠ 0)
    (iters : Word) :
    Moves ch Holds capacity
        ((List.range iters.toNat).map fun j => UInt64.ofNat (j % capacity.toNat))
        (playBatch ch iters capacity) ∧
      (playBatch ch iters capacity).calls = batch iters capacity := by
  have hpos : 0 < capacity.toNat :=
    Nat.pos_of_ne_zero fun hzero => hcapacity (UInt64.toNat.inj hzero)
  rw [playBatch, if_neg hcapacity, ← filterMap_batch hpos]
  exact Fits.moves (.flatMap fun size hsize => .group (le_of_mem_groups hpos hsize)) hch

/-! ### Pings -/

/-- A single place is enough for the scenario that sends and receives in turn. -/
private theorem fits_ping (iters : Word) : Fits (1 : Word).toNat [] (ping iters) [] :=
  .flatMap fun _ _ => .send (by decide) (.receive (.nil []))

/-- The scenario that sends and receives in turn sends the values from zero on. -/
private theorem filterMap_ping (iters : Word) :
    (ping iters).filterMap ChannelCall.value? = values iters.toNat := by
  rw [ping, List.filterMap_flatMap, values, List.map_eq_flatMap]
  rfl

/-- It alternates between sends and receives. -/
private theorem map_letter_ping (iters : Word) :
    (ping iters).map Record.letter = (List.replicate iters.toNat ['s', 'r']).flatten := by
  rw [ping, List.map_flatMap, List.flatMap_def]
  simp [Record.letter, List.map_const']

/-- On a channel that carries a single value it moves all values, by its own calls. -/
private theorem playPing_moves (hch : ch.Carries 1 Holds) (iters : Word) :
    Moves ch Holds 1 (values iters.toNat) (playPing ch iters) ∧
      (playPing ch iters).calls = ping iters := by
  rw [← filterMap_ping]
  exact (fits_ping iters).moves hch

end Scenario

open Scenario in
/-- What batches and pings move, for any number of integers and over any channel that is first in,
first out. A batch creates one channel, for a group; it sends `0`, `1`, … over and over, group by
group, and receives each integer back, as many as it is told to; its calls come in full groups, the
sends before the receives, and a shorter one at the end for the rest. A batch in groups of none
panics before it creates a channel. A ping sends `0`, `1`, … on a channel for one item and
receives each of them back before the next. All kinds of channel are such channels. -/
theorem scenarios_move (iters : Word) :
    (∀ {σ : Type u} (ch : Channel σ) (Holds : σ → List Word → Prop) (buflen : Word),
      buflen ≠ 0 → ch.Carries buflen Holds →
        Moves ch Holds buflen
          ((List.range iters.toNat).map fun j => UInt64.ofNat (j % buflen.toNat))
          (playBatch ch iters buflen) ∧
        (playBatch ch iters buflen).calls.map Record.letter =
          (List.replicate (iters.toNat / buflen.toNat)
            (List.replicate buflen.toNat 's' ++ List.replicate buflen.toNat 'r')).flatten ++
              (List.replicate (iters.toNat % buflen.toNat) 's' ++
                List.replicate (iters.toNat % buflen.toNat) 'r')) ∧
    (∀ {σ : Type u} (ch : Channel σ),
      playBatch ch iters 0 = ⟨[], [], [], .panicked .emptyBatch⟩) ∧
    (∀ {σ : Type u} (ch : Channel σ) (Holds : σ → List Word → Prop), ch.Carries 1 Holds →
      Moves ch Holds 1 ((List.range iters.toNat).map UInt64.ofNat) (playPing ch iters) ∧
      (playPing ch iters).calls.map Record.letter =
        (List.replicate iters.toNat ['s', 'r']).flatten) ∧
    (∀ {α : Type u} (f : Facade Word α) (capacity : Word),
      (Channel.linked f).Carries capacity fun q l => Channel.integers f q = l) ∧
    (∀ capacity, Channel.bounded.Carries capacity (Channel.Buffers capacity)) ∧
    (∀ kind buflen, buflen ≠ 0 → (kind = .bounded → Bounded.refusal? buflen = none) →
      Moved buflen ((List.range iters.toNat).map fun j => UInt64.ofNat (j % buflen.toNat))
        (onKind .batch kind iters buflen)) ∧
    ∀ kind buflen, Moved 1 ((List.range iters.toNat).map UInt64.ofNat)
      (onKind .ping kind iters buflen) := by
  refine ⟨fun ch Holds buflen hbuflen hch => ?_, fun ch => rfl, fun ch Holds hch => ?_,
    Channel.carries_linked, Channel.carries_bounded, fun kind buflen hbuflen hcreated => ?_,
    fun kind buflen => ?_⟩
  · obtain ⟨hmoves, hcalls⟩ := playBatch_moves hch hbuflen iters
    rw [hcalls]
    exact ⟨hmoves, map_letter_batch iters buflen⟩
  · obtain ⟨hmoves, hcalls⟩ := playPing_moves hch iters
    rw [hcalls]
    exact ⟨hmoves, map_letter_ping iters⟩
  · -- Each kind of channel carries, so the scenario moves the values on it.
    cases kind with
    | handles => exact (playBatch_moves (Channel.carries_linked _ _) hbuflen iters).1.toMoved
    | addresses => exact (playBatch_moves (Channel.carries_linked _ _) hbuflen iters).1.toMoved
    | bounded =>
      simp only [onKind, hcreated rfl]
      exact (playBatch_moves (Channel.carries_bounded _) hbuflen iters).1.toMoved
  · cases kind with
    | handles => exact (playPing_moves (Channel.carries_linked _ _) iters).1.toMoved
    | addresses => exact (playPing_moves (Channel.carries_linked _ _) iters).1.toMoved
    | bounded => exact (playPing_moves (Channel.carries_bounded _) iters).1.toMoved

/-- Ten integers over a bounded buffer for four: two full groups, and two integers more. -/
theorem scenarios_move_ten :
    (Scenario.playBatch .bounded 10 4).sent = [0, 1, 2, 3, 0, 1, 2, 3, 0, 1] ∧
      (Scenario.playBatch .bounded 10 4).received =
        [0, 1, 2, 3, 0, 1, 2, 3, 0, 1].map some ∧
      (Scenario.playBatch .bounded 10 4).calls.map Record.letter =
        "ssssrrrrssssrrrrssrr".toList := by
  obtain ⟨hbatch, -⟩ := scenarios_move.{0} 10
  obtain ⟨hmoves, hletters⟩ := hbatch .bounded (Channel.Buffers 4) 4 (by decide)
    (Channel.carries_bounded 4)
  exact ⟨hmoves.sent.trans (by decide), hmoves.received.trans (by decide),
    hletters.trans (by decide)⟩

end AtomicFifo
