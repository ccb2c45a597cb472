import AtomicFifo.Proofs.Facade.Cursor
import AtomicFifo.Session.Arena

/-!
# Queues of handles and queues of addresses

A facade adds nothing to the queue behind it and takes nothing away. Whatever a queue of addresses
is asked, it answers what the queue of raw items behind it does by its own operations, and the null
address is an item like any other. A queue of handles gives the very handles that it was given. So
two queues of either kind, asked for corresponding things, cannot get out of step.

* `serve_eq`           a facade answers as the queue behind it does
* `Ask.onList_map`     corresponding lists give corresponding answers
* `Arena.books_run`    no command changes the cells that addresses lead to
* `confined_course`    no node of another owner is written to or freed
* `Faithful`           what a facade has to do with its queue, and with the list of its items
* `InStep`, `lockstep`  both kinds of queues, the queues behind them, and one another
-/

namespace AtomicFifo

universe u v w

/-! ### Lists in step -/

/-- Corresponding lists, asked for corresponding things, give corresponding answers. -/
theorem Ask.onList_map {ι : Type u} {κ : Type v} (g : ι → κ) (l : List ι) (ask : Ask ι) :
    (ask.map g).onList (l.map g) = Prod.map (List.map g) (Told.map g) (ask.onList l) := by
  cases ask with
  | enqueue memory i =>
    cases memory with
    | true => simp [map, onList, Told.map, Except.mapError]
    | false => simp [map, onList, Told.map, Except.mapError, AllocError.map]
  | nth n => simp [map, onList, Told.map]
  | _ => simp [map, onList, Told.map]

/-- A course on a list may be renamed together with the list. -/
private theorem courseOf_onList_map {ι : Type u} {κ : Type v} (g : ι → κ) (l : List ι)
    (asks : List (Ask ι)) :
    courseOf Ask.onList (l.map g) (asks.map (Ask.map g)) =
      (courseOf Ask.onList l asks).map (Prod.map (List.map g) (Told.map g)) := by
  have hcourse := courseOf_eq Ask.onList Ask.onList (List.map g) (Ask.map g) (Told.map g) id
    (fun l ask => by rw [Prod.map_id]; exact Ask.onList_map g l ask) l asks
  rwa [Prod.map_id, List.map_id] at hcourse

/-- What is seen as something else and back again is the same. -/
private theorem Told.map_map_of_inverse {ι : Type u} {κ : Type v} {g : ι → κ} {h : κ → ι}
    (hinverse : ∀ k, g (h k) = k) (told : Told κ) : (told.map h).map g = told := by
  have hid : g ∘ h = id := funext hinverse
  cases told with
  | enqueued answer =>
    cases answer with
    | ok => rfl
    | error e => simp [map, Except.mapError, AllocError.map, hinverse]
  | item i => simp [map, hid]
  | items l => simp [map, hid]
  | found l i => simp [map, hid]
  | _ => rfl

namespace Facade

variable {ι : Type u} {α : Type v} (f : Facade ι α)

/-! ### The queue behind a facade -/

/-- A facade answers as the queue behind it does, but for the wrapping. -/
theorem serve_eq (q : Queue α) (ask : Ask ι) :
    f.serve q ask = Prod.map id (Told.map f.unwrap) (q.serve (ask.map f.wrap)) := by
  cases ask with
  | enqueue memory i =>
    cases memory with
    | true => rfl
    | false =>
      -- The refused item has been wrapped on its way in and is unwrapped on its way out.
      show f.serve q (.enqueue false i) =
        Prod.map id (Told.map f.unwrap) (q.serve (.enqueue false (f.wrap i)))
      simp only [serve, Queue.serve, enqueue?_false, Queue.enqueue?_false]
      show _ = (q, Told.enqueued (.error ⟨f.unwrap (f.wrap i)⟩))
      rw [f.unwrap_wrap]
  | _ => rfl

/-- The same for one thing after the other. -/
private theorem course_eq (q : Queue α) (asks : List (Ask ι)) :
    f.course q asks =
      (q.course (asks.map (Ask.map f.wrap))).map (Prod.map id (Told.map f.unwrap)) := by
  have hcourse := courseOf_eq f.serve Queue.serve id (Ask.map f.wrap) id (Told.map f.unwrap)
    (fun q ask => by rw [Prod.map_id]; exact (f.serve_eq q ask).symm) q asks
  rw [Prod.map_id, List.map_id] at hcourse
  exact hcourse.symm

/-- The facade that leaves the items as they are is the queue itself. -/
private theorem course_plain (q : Queue α) (asks : List (Ask α)) :
    (plain α).course q asks = q.course asks := by
  -- Nothing is wrapped, so neither asks nor answers change.
  have hask : (Ask.map id : Ask α → Ask α) = id := by
    funext ask
    cases ask <;> rfl
  have htold : (Told.map id : Told α → Told α) = id := by
    funext told
    cases told with
    | enqueued answer => cases answer <;> rfl
    | _ => simp [Told.map]
  rw [(plain α).course_eq]
  show (q.course (asks.map (Ask.map id))).map (Prod.map id (Told.map id)) = _
  rw [hask, htold, List.map_id, Prod.map_id, List.map_id]

/-- What a facade has to do with the queue behind it. -/
structure Faithful (f : Facade ι α) : Prop where
  /-- Its answers are those of the queue, asked for the wrapped items, with the wrapping removed;
  and after each of them the queue is the one that it is without the facade. -/
  course_eq : ∀ (q : Queue α) (asks : List (Ask ι)), f.course q asks =
    (q.course (asks.map (Ask.map f.wrap))).map (Prod.map id (Told.map f.unwrap))
  /-- Items come out in the order in which they were put in, each of them once. -/
  course_onList : ∀ (q : Queue α) (asks : List (Ask ι)),
    (f.course q asks).map (Prod.map f.items id) = courseOf Ask.onList (f.items q) asks

/-- Any facade is faithful. -/
private theorem faithful : f.Faithful := ⟨f.course_eq, f.course_onList⟩

/-- The sizes and the answers of a queue are told by the list of its items. -/
private theorem course_sizes (q : Queue α) (asks : List (Ask ι)) :
    (f.course q asks).map (fun step => (step.1.sizes, step.2)) =
      (courseOf Ask.onList (f.items q) asks).map fun step =>
        ((UInt64.ofNat step.1.length, step.1.isEmpty, step.1.length), step.2) := by
  rw [← f.course_onList, List.map_map]
  apply List.map_congr_left
  intro step _
  simp [Queue.sizes, items, Queue.len_eq, Queue.isEmpty_eq, Queue.nodeCount_eq]

/-- Two queues with corresponding items, asked for corresponding things. -/
private theorem course_corresponding {κ : Type w} {β : Type*} (g : Facade κ β) (name : ι → κ)
    {q : Queue α} {q' : Queue β} (hitems : g.items q' = (f.items q).map name)
    (asks : List (Ask ι)) :
    (g.course q' (asks.map (Ask.map name))).map (fun step => (step.1.sizes, step.2)) =
      (f.course q asks).map fun step => (step.1.sizes, step.2.map name) := by
  -- Both sides are told by their lists of items, and these correspond.
  have hleft := g.course_sizes q' (asks.map (Ask.map name))
  have hright := congrArg (List.map (Prod.map id (Told.map name))) (f.course_sizes q asks)
  rw [hitems, courseOf_onList_map, List.map_map] at hleft
  rw [List.map_map, List.map_map] at hright
  rw [hleft]
  refine Eq.trans ?_ hright.symm
  apply List.map_congr_left
  intro step _
  simp

/-! ### Other memory -/

/-- Whatever is asked of a queue, no other queue in its memory is touched. -/
private theorem confined_serve (q : Queue α) (ask : Ask ι) : q.Confined (f.serve q ask).1 := by
  cases ask with
  | enqueue memory i =>
    cases memory with
    | true => exact .enqueue q (f.wrap i)
    | false =>
      simp only [serve, f.enqueue?_false]
      exact .refl q
  | dequeue | next => exact .dequeue q
  | collect => exact .drain q
  | take k => exact .takeUpTo k q
  | nth n => exact .takeNth n q
  | len | isEmpty | nodeCount => exact .refl q

/-- Whatever a queue is asked, it writes to its own nodes only. -/
theorem confined_course (q : Queue α) (asks : List (Ask ι)) :
    ∀ step ∈ f.course q asks, q.Confined step.1 := by
  -- By induction on the asks, with the queue general: each starts where the last one left it.
  induction asks generalizing q with
  | nil => simp [course, courseOf]
  | cons ask asks ih =>
    have hfirst := f.confined_serve q ask
    intro step hstep
    cases hstep with
    | head => exact hfirst
    | tail _ hstep => exact hfirst.trans (ih _ step hstep)

end Facade

namespace Arena

variable {β : Type u}

/-- Nothing that a user of addresses does changes a cell. -/
theorem sound (a : Arena β) : custody.Sound fun books (_ : List Address) => books = a where
  perm _ h := h
  fetch {books item i books' _} h ha := by
    obtain ⟨_, -, hfetch⟩ := Option.map_eq_some_iff.1 h
    cases hfetch
    exact ha
  generate h ha := by
    cases h
    exact ha
  release _ _ _ h := h
  keep _ _ _ h := h
  drop _ _ _ h := h

/-- No command changes a cell. -/
theorem books_run (s : Session (Arena β) (RawItem Address)) (cmds : List (Command AddressRequest)) :
    (cmds.foldl (fun s cmd => (s.run (.addresses Address) custody cmd).1) s).books = s.books := by
  induction cmds generalizing s with
  | nil => rfl
  | cons cmd cmds ih =>
    have hfirst : (s.run (.addresses Address) custody cmd).1.books = s.books :=
      Session.run_accounted (sound s.books) rfl cmd
    rw [List.foldl_cons, ih, hfirst]

/-- Neither does the end of all queues. -/
private theorem books_finish (s : Session (Arena β) (RawItem Address)) :
    (s.finish (.addresses Address) custody).books = s.books :=
  Session.finish_accounted (sound s.books) rfl

end Arena

/-! ### All queues together -/

namespace Facade

/-- An address comes out if and only if it stands in front, the null address like any other. -/
private theorem dequeue_addresses (q : Queue (RawItem Word)) :
    (((addresses Word).dequeue q).2 = none ↔ q.isEmpty = true) ∧
      ∀ word, ((addresses Word).dequeue q).2 = some word ↔ q.toList.head? = some ⟨word⟩ := by
  show (q.dequeue.2.map RawItem.address = none ↔ _) ∧
    ∀ word, q.dequeue.2.map RawItem.address = some word ↔ _
  rw [q.dequeue_snd, q.isEmpty_eq]
  cases q.toList with
  | nil => simp
  | cons r l =>
    obtain ⟨address⟩ := r
    simp

/-- The null address goes through an empty queue. -/
example : ((addresses Word).course .init [.enqueue true 0, .isEmpty, .dequeue, .dequeue]).map
    Prod.snd = [.enqueued (.ok ()), .flag false, .item (some 0), .item none] :=
  rfl

/-- A queue of handles gives the very handles that the queue behind it gives. -/
private theorem course_handles {ι : Type u} (q : Queue (Handle ι)) (asks : List (Ask ι)) :
    q.course (asks.map (Ask.map Handle.mk)) =
      ((handles ι).course q asks).map (Prod.map id (Told.map Handle.mk)) := by
  have hback : ∀ step : Queue (Handle ι) × Told (Handle ι),
      (Prod.map id (Told.map Handle.mk) ∘ Prod.map id (Told.map Handle.object)) step = step := by
    intro step
    exact Prod.ext rfl (Told.map_map_of_inverse (fun _ => rfl) step.2)
  rw [(handles ι).course_eq q asks, List.map_map]
  exact (List.map_id'' hback _).symm

/-- Queues of addresses and queues of handles, if the addresses name the objects of the handles in
this way. What the addresses lead to are cells that hold values of the last type. -/
structure InStep {ι : Type u} (name : ι → Word) (β : Type v) : Prop where
  /-- A queue of addresses answers as the queue of raw items behind it, and so does a queue of
  handles. -/
  addresses : (addresses Word).Faithful
  handles : (handles ι).Faithful
  /-- The facade that leaves items as they are is the queue itself. -/
  plain : ∀ (q : Queue ι) (asks : List (Ask ι)), (plain ι).course q asks = q.course asks
  /-- A queue of addresses answers that there is nothing only if it is empty, and any address that
  stands in front, null too. -/
  front : ∀ (q : Queue (RawItem Word)) (drain : Nat), ∀ ask ∈ [.dequeue, .next drain],
    (((Facade.addresses Word).serve q ask).2 = .item none ↔ q.isEmpty = true) ∧
      ∀ word, ((Facade.addresses Word).serve q ask).2 = .item (some word) ↔
        q.toList.head? = some ⟨word⟩
  /-- No cell that an address leads to is changed, whatever is done with the queues, and however
  they end. -/
  cells : ∀ (s : Session (Arena β) (RawItem Address)) (cmds : List (Command AddressRequest)),
    let s' := cmds.foldl (fun s cmd => (s.run (Facade.addresses Address) Arena.custody cmd).1) s
    s'.books = s.books ∧
      (s'.finish (Facade.addresses Address) Arena.custody).books = s.books
  /-- No place that is not a node of the queue is written to or freed. -/
  places : ∀ (q : Queue (RawItem Word)) (asks : List (Ask Word)),
    ∀ place < q.shared.nodes.size, place ∉ q.chain →
      ∀ step ∈ (Facade.addresses Word).course q asks,
        step.1.shared.nodes[place]? = q.shared.nodes[place]? ∧ place ∉ step.1.destroy.nodes
  /-- The handles that the queue of handles gives are the very handles of the queue behind it. -/
  same : ∀ (q : Queue (Handle ι)) (asks : List (Ask ι)),
    q.course (asks.map (Ask.map Handle.mk)) =
      ((Facade.handles ι).course q asks).map (Prod.map id (Told.map Handle.mk))
  /-- Two queues that hold corresponding items, such as new ones, give corresponding answers to
  corresponding asks and never differ in size. -/
  corresponding : ∀ (q : Queue (Handle ι)) (q' : Queue (RawItem Word)),
    (Facade.addresses Word).items q' = ((Facade.handles ι).items q).map name →
      ∀ asks : List (Ask ι),
        ((Facade.addresses Word).course q' (asks.map (Ask.map name))).map
            (fun step => (step.1.sizes, step.2)) =
          ((Facade.handles ι).course q asks).map fun step => (step.1.sizes, step.2.map name)

/-- However addresses name objects, queues of addresses, queues of handles and the queues behind
them stay in step. -/
theorem lockstep {ι : Type u} {β : Type v} (name : ι → Word) : InStep name β := by
  constructor
  case addresses => exact (addresses Word).faithful
  case handles => exact (handles ι).faithful
  case plain => exact course_plain
  case front =>
    intro q drain ask hask
    -- To ask a drain is to dequeue.
    have hserve : ((addresses Word).serve q ask).2 = .item ((addresses Word).dequeue q).2 := by
      simp only [List.mem_cons, List.not_mem_nil, or_false] at hask
      obtain rfl | rfl := hask <;> rfl
    simp only [hserve, Told.item.injEq]
    exact dequeue_addresses q
  case cells =>
    intro s cmds
    refine ⟨Arena.books_run s cmds, ?_⟩
    rw [Arena.books_finish, Arena.books_run]
  case places =>
    intro q asks place hlt hplace step hstep
    have hconfined := (addresses Word).confined_course q asks step hstep
    refine ⟨hconfined.kept place hlt hplace, fun hfreed => ?_⟩
    -- The nodes that are freed were in the chain, or are newer than the place.
    obtain hown | hnew := hconfined.own place hfreed
    · exact hplace hown
    · omega
  case same => exact course_handles
  case corresponding => exact fun q q' hitems asks => course_corresponding _ _ name hitems asks

end Facade

end AtomicFifo
