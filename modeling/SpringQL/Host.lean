import SpringQL.Pipeline.Invariants
import Mathlib.Logic.Function.Basic

/-!
# SpringQL.Host

The host API of `pipeline.rs`: `spring_command`, `spring_pop_non_blocking` and `spring_pop`.

The engine and its in-memory queues are not among the sources. An `InMemoryQueueRepository`
follows the spec: a named FIFO per `IN_MEMORY_QUEUE` sink writer, into which sink tasks push and
from which the host pops; popping an undeclared queue fails with `Unavailable`. Two ghost
histories, the rows ever pushed to and popped from each queue, state FIFO delivery.

Each host call first takes the engine lock, `engine.get()?`. The engine is not among the
sources, so the lock's result is an input of each call, and a refused lock is returned as the
call's `Err` with nothing touched. `spring_pop` takes the lock once and then polls with a 10 ms
sleep between polls; while it sleeps no other host call can take the lock, so only the workers'
sink tasks touch the queues. Its loop takes the rows the sink tasks push during each sleep, and
the length of that list bounds the polls (`none` when the last poll still found the queue empty).

* `springPop_fst`: `spring_pop` returns the lock's error, or the first row the queue ever holds
  over its polls, or keeps blocking when none arrives; it fails at once on an undeclared queue.
* `session_fifo`: over any interleaving of host pops, blocking or not, with sink pushes, the rows
  handed to the host from a queue followed by the rows it still holds are the rows pushed to it,
  in push order.
* `springCommands_reachable`: the engine's pipeline after any sequence of `spring_command` calls
  is the run of the mutator calls of the calls that succeeded, each compiled against the pipeline
  the earlier ones left, so it keeps the pipeline invariants and its version counts them.
-/

namespace SpringQL

/-- Modelled from the spec: the in-memory sink queues by name (`none` for an undeclared name),
each listed head first, with the ghost histories of the rows pushed to and popped from each. -/
structure InMemoryQueueRepository (ρ : Type) where
  get : String → Option (List ρ)
  pushed : String → List ρ
  popped : String → List ρ

/-- The rows of the pairs addressed to `queue`, in order. -/
def rowsOf {ρ : Type} (queue : String) (pairs : List (String × ρ)) : List ρ :=
  pairs.filterMap fun p => if p.1 = queue then some p.2 else none

@[simp] theorem rowsOf_nil {ρ : Type} (queue : String) : rowsOf queue ([] : List (String × ρ)) = [] :=
  rfl

theorem rowsOf_cons {ρ : Type} (queue q : String) (row : ρ) (pairs : List (String × ρ)) :
    rowsOf queue ((q, row) :: pairs) = (if q = queue then [row] else []) ++ rowsOf queue pairs := by
  by_cases h : q = queue <;> simp [rowsOf, h]

@[simp] theorem rowsOf_append {ρ : Type} (queue : String) (l₁ l₂ : List (String × ρ)) :
    rowsOf queue (l₁ ++ l₂) = rowsOf queue l₁ ++ rowsOf queue l₂ :=
  List.filterMap_append _ _ _

namespace InMemoryQueueRepository

variable {ρ : Type}

/-- Modelled from the spec: a sink task pushing `row` to the back of `queue`; a push to an
undeclared queue changes nothing. -/
def push (repo : InMemoryQueueRepository ρ) (queue : String) (row : ρ) :
    InMemoryQueueRepository ρ :=
  match repo.get queue with
  | none => repo
  | some rows =>
    { repo with
      get := Function.update repo.get queue (some (rows ++ [row]))
      pushed := Function.update repo.pushed queue (repo.pushed queue ++ [row]) }

/-- The pushes one after another. -/
def pushAll (repo : InMemoryQueueRepository ρ) (pushes : List (String × ρ)) :
    InMemoryQueueRepository ρ :=
  pushes.foldl (fun repo p => repo.push p.1 p.2) repo

/-- Modelled from the spec: the engine's `pop_in_memory_queue_non_blocking`, the head row or
`None` on an empty queue, and `Unavailable` on an undeclared one. -/
def popNonBlocking (repo : InMemoryQueueRepository ρ) (queue : String) :
    Except SpringError (Option ρ) × InMemoryQueueRepository ρ :=
  match repo.get queue with
  | none => (.error (.unavailable ("queue \"" ++ queue ++ "\" does not exist")), repo)
  | some [] => (.ok none, repo)
  | some (row :: rows) =>
    (.ok (some row),
      { repo with
        get := Function.update repo.get queue (some rows)
        popped := Function.update repo.popped queue (repo.popped queue ++ [row]) })

/-- The row a poll hands over, if any. -/
def polled : Except SpringError (Option ρ) → List ρ
  | .ok (some row) => [row]
  | _ => []

/-- Each declared queue holds, in order, the rows pushed to it that were not popped. -/
def Fifo (repo : InMemoryQueueRepository ρ) : Prop :=
  ∀ queue rows, repo.get queue = some rows → repo.popped queue ++ rows = repo.pushed queue

/-- Declared queues with no rows and no history. -/
def fresh (queues : List String) : InMemoryQueueRepository ρ :=
  ⟨fun q => if q ∈ queues then some [] else none, fun _ => [], fun _ => []⟩

theorem fresh_fifo (queues : List String) : (fresh queues : InMemoryQueueRepository ρ).Fifo := by
  intro q rows h
  by_cases hq : q ∈ queues <;> simp_all [fresh]

variable {repo : InMemoryQueueRepository ρ} {queue q : String}

@[simp] theorem push_popped (row : ρ) : (repo.push queue row).popped = repo.popped := by
  unfold push; split <;> rfl

@[simp] theorem pushAll_popped (pushes : List (String × ρ)) :
    (repo.pushAll pushes).popped = repo.popped := by
  induction pushes generalizing repo with
  | nil => rfl
  | cons p pushes ih => exact ih.trans (push_popped p.2)

theorem push_get {rows : List ρ} (hq : repo.get q = some rows) (queue : String) (row : ρ) :
    (repo.push queue row).get q = some (rows ++ if queue = q then [row] else []) := by
  by_cases h : queue = q
  · subst h; simp [push, hq]
  · unfold push; split <;> simp [h, Ne.symm h, hq]

theorem pushAll_get {rows : List ρ} (hq : repo.get q = some rows) (pushes : List (String × ρ)) :
    (repo.pushAll pushes).get q = some (rows ++ rowsOf q pushes) := by
  induction pushes generalizing repo rows with
  | nil => simpa using hq
  | cons p pushes ih =>
    obtain ⟨queue, row⟩ := p
    simpa [pushAll, rowsOf_cons] using ih (push_get hq queue row)

theorem push_fifo (h : repo.Fifo) (queue : String) (row : ρ) : (repo.push queue row).Fifo := by
  unfold push
  split
  · exact h
  · rename_i rows hrows
    intro q' rows' hq'
    by_cases hq : q' = queue
    · subst hq
      simp only [Function.update_same, Option.some.injEq] at hq' ⊢
      rw [← hq', ← List.append_assoc, h q' rows hrows]
    · simp only [Function.update_noteq hq] at hq' ⊢
      exact h q' rows' hq'

theorem pushAll_fifo (h : repo.Fifo) (pushes : List (String × ρ)) : (repo.pushAll pushes).Fifo := by
  induction pushes generalizing repo with
  | nil => exact h
  | cons p pushes ih => exact ih (push_fifo h p.1 p.2)

theorem popNonBlocking_of_none (hq : repo.get queue = none) :
    repo.popNonBlocking queue =
      (.error (.unavailable ("queue \"" ++ queue ++ "\" does not exist")), repo) := by
  simp [popNonBlocking, hq]

theorem popNonBlocking_popped (queue q : String) :
    (repo.popNonBlocking queue).2.popped q =
      repo.popped q ++ if queue = q then polled (repo.popNonBlocking queue).1 else [] := by
  unfold popNonBlocking
  split
  · simp [polled]
  · simp [polled]
  · by_cases h : queue = q
    · subst h; simp [polled]
    · simp [h, Function.update_noteq (Ne.symm h)]

theorem popNonBlocking_fifo (h : repo.Fifo) (queue : String) :
    (repo.popNonBlocking queue).2.Fifo := by
  unfold popNonBlocking
  split
  · exact h
  · exact h
  · rename_i row rows hrows
    intro q' rows' hq'
    by_cases hq : q' = queue
    · subst hq
      simp only [Function.update_same, Option.some.injEq] at hq' ⊢
      rw [← hq', List.append_assoc, List.singleton_append, h q' _ hrows]
    · simp only [Function.update_noteq hq] at hq' ⊢
      exact h q' rows' hq'

end InMemoryQueueRepository

open InMemoryQueueRepository

variable {ρ : Type}

/-- `SpringRow`: a row popped from an in-memory queue. -/
structure SpringRow (ρ : Type) where
  sinkRow : ρ

/-- `spring_pop_non_blocking`: the engine lock's result `lock` (`engine.get()?`), then one poll. -/
def springPopNonBlocking (lock : Except SpringError Unit) (repo : InMemoryQueueRepository ρ)
    (queue : String) : Except SpringError (Option (SpringRow ρ)) × InMemoryQueueRepository ρ :=
  match lock with
  | .error e => (.error e, repo)
  | .ok () =>
    match repo.popNonBlocking queue with
    | (.error e, repo) => (.error e, repo)
    | (.ok sinkRow, repo) => (.ok (sinkRow.map SpringRow.mk), repo)

/-- One poll of `spring_pop`'s loop: the call's result when the poll fails or finds a row,
`none` when it finds the queue empty. -/
def springPoll (repo : InMemoryQueueRepository ρ) (queue : String) :
    Option (Except SpringError (SpringRow ρ)) × InMemoryQueueRepository ρ :=
  match repo.popNonBlocking queue with
  | (.error e, repo) => (some (.error e), repo)
  | (.ok (some sinkRow), repo) => (some (.ok ⟨sinkRow⟩), repo)
  | (.ok none, repo) => (none, repo)

/-- The `loop` of `spring_pop`: poll, and on an empty queue sleep and poll again. During the
`i`-th sleep the sink tasks push `sleeps[i]`; after the last sleep's poll the call is still blocked
(`none`). -/
def springPopLoop (repo : InMemoryQueueRepository ρ) (queue : String) :
    List (List (String × ρ)) →
      Option (Except SpringError (SpringRow ρ)) × InMemoryQueueRepository ρ
  | [] => springPoll repo queue
  | pushes :: sleeps =>
    match springPoll repo queue with
    | (none, repo) => springPopLoop (repo.pushAll pushes) queue sleeps
    | result => result

/-- `spring_pop`: the engine lock's result `lock`, taken once before the loop (`engine.get()?`),
then the loop. -/
def springPop (lock : Except SpringError Unit) (repo : InMemoryQueueRepository ρ) (queue : String)
    (sleeps : List (List (String × ρ))) :
    Option (Except SpringError (SpringRow ρ)) × InMemoryQueueRepository ρ :=
  match lock with
  | .error e => (some (.error e), repo)
  | .ok () => springPopLoop repo queue sleeps

/-- The row a `spring_pop` call hands to the host, if it returned one. -/
def handedByPop : Option (Except SpringError (SpringRow ρ)) → List ρ
  | some (.ok row) => [row.sinkRow]
  | _ => []

/-- The row a `spring_pop_non_blocking` call hands to the host, if any. -/
def handedByPopNonBlocking : Except SpringError (Option (SpringRow ρ)) → List ρ
  | .ok (some row) => [row.sinkRow]
  | _ => []

variable {repo : InMemoryQueueRepository ρ} {queue : String}

theorem springPoll_of_none (hq : repo.get queue = none) :
    springPoll repo queue =
      (some (.error (.unavailable ("queue \"" ++ queue ++ "\" does not exist"))), repo) := by
  simp [springPoll, popNonBlocking_of_none hq]

theorem springPoll_fst {rows : List ρ} (hq : repo.get queue = some rows) :
    (springPoll repo queue).1 = rows.head?.map fun row => .ok ⟨row⟩ := by
  cases rows <;> simp [springPoll, popNonBlocking, hq]

theorem springPoll_of_nil (hq : repo.get queue = some []) : springPoll repo queue = (none, repo) := by
  simp [springPoll, popNonBlocking, hq]

theorem springPopLoop_of_none (hq : repo.get queue = none) (sleeps : List (List (String × ρ))) :
    springPopLoop repo queue sleeps =
      (some (.error (.unavailable ("queue \"" ++ queue ++ "\" does not exist"))), repo) := by
  cases sleeps <;> simp [springPopLoop, springPoll_of_none hq]

theorem springPopLoop_fst_of_some {rows : List ρ} (hq : repo.get queue = some rows)
    (sleeps : List (List (String × ρ))) :
    (springPopLoop repo queue sleeps).1 = (rows ++ rowsOf queue sleeps.flatten).head?.map
      fun row => .ok ⟨row⟩ := by
  induction sleeps generalizing repo rows with
  | nil => simpa [springPopLoop] using springPoll_fst hq
  | cons pushes sleeps ih =>
    cases rows with
    | cons row rows =>
      have hfst := springPoll_fst hq
      rcases hpoll : springPoll repo queue with ⟨r, repo'⟩
      rw [hpoll] at hfst
      simp only [List.head?_cons, Option.map_some'] at hfst
      subst hfst
      simp [springPopLoop, hpoll]
    | nil =>
      rw [springPopLoop, springPoll_of_nil hq, ih (pushAll_get hq pushes)]
      simp

theorem springPoll_snd : (springPoll repo queue).2 = (repo.popNonBlocking queue).2 := by
  rcases h : repo.popNonBlocking queue with ⟨_ | _ | row, repo'⟩ <;> simp [springPoll, h]

theorem handedByPop_springPoll :
    handedByPop (springPoll repo queue).1 = polled (repo.popNonBlocking queue).1 := by
  rcases h : repo.popNonBlocking queue with ⟨_ | _ | row, repo'⟩ <;>
    simp [springPoll, h, handedByPop, polled]

theorem springPopNonBlocking_ok_snd :
    (springPopNonBlocking (.ok ()) repo queue).2 = (repo.popNonBlocking queue).2 := by
  rcases h : repo.popNonBlocking queue with ⟨_ | _ | row, repo'⟩ <;> simp [springPopNonBlocking, h]

theorem handedByPopNonBlocking_ok :
    handedByPopNonBlocking (springPopNonBlocking (.ok ()) repo queue).1 =
      polled (repo.popNonBlocking queue).1 := by
  rcases h : repo.popNonBlocking queue with ⟨_ | _ | row, repo'⟩ <;>
    simp [springPopNonBlocking, h, handedByPopNonBlocking, polled]

/-- A non-blocking pop keeps the FIFO invariant, and the row it hands over is the one it
popped; with the lock refused it touches nothing. -/
theorem springPopNonBlocking_fifo (h : repo.Fifo) (lock : Except SpringError Unit) :
    (springPopNonBlocking lock repo queue).2.Fifo ∧
      ∀ q, (springPopNonBlocking lock repo queue).2.popped q = repo.popped q ++
        if queue = q then handedByPopNonBlocking (springPopNonBlocking lock repo queue).1 else [] := by
  rcases lock with e | ⟨⟩
  · exact ⟨h, fun q => by simp [springPopNonBlocking, handedByPopNonBlocking]⟩
  · rw [springPopNonBlocking_ok_snd, handedByPopNonBlocking_ok]
    exact ⟨popNonBlocking_fifo h queue, popNonBlocking_popped queue⟩

/-- The loop of a blocking pop keeps the FIFO invariant, and the row it hands over is the one its
last poll popped. -/
theorem springPopLoop_fifo (h : repo.Fifo) (sleeps : List (List (String × ρ))) :
    (springPopLoop repo queue sleeps).2.Fifo ∧
      ∀ q, (springPopLoop repo queue sleeps).2.popped q =
        repo.popped q ++ if queue = q then handedByPop (springPopLoop repo queue sleeps).1 else [] := by
  induction sleeps generalizing repo with
  | nil =>
    simp only [springPopLoop, springPoll_snd, handedByPop_springPoll]
    exact ⟨popNonBlocking_fifo h queue, popNonBlocking_popped queue⟩
  | cons pushes sleeps ih =>
    rcases hpoll : springPoll repo queue with ⟨r, repo'⟩
    have hsnd : repo' = (repo.popNonBlocking queue).2 := by rw [← springPoll_snd, hpoll]
    have hr : handedByPop r = polled (repo.popNonBlocking queue).1 := by
      rw [← handedByPop_springPoll, hpoll]
    subst hsnd
    cases r with
    | none =>
      obtain ⟨hf, hp⟩ := ih (pushAll_fifo (popNonBlocking_fifo h queue) pushes)
      refine ⟨by simpa [springPopLoop, hpoll] using hf, fun q => ?_⟩
      simp [springPopLoop, hpoll, hp, popNonBlocking_popped, ← hr, handedByPop]
    | some r =>
      simp only [springPopLoop, hpoll, hr]
      exact ⟨popNonBlocking_fifo h queue, popNonBlocking_popped queue⟩

theorem springPop_fifo (h : repo.Fifo) (lock : Except SpringError Unit)
    (sleeps : List (List (String × ρ))) :
    (springPop lock repo queue sleeps).2.Fifo ∧
      ∀ q, (springPop lock repo queue sleeps).2.popped q =
        repo.popped q ++ if queue = q then handedByPop (springPop lock repo queue sleeps).1 else [] := by
  rcases lock with e | ⟨⟩
  · exact ⟨h, fun q => by simp [springPop, handedByPop]⟩
  · exact springPopLoop_fifo h sleeps

/-- One step of the host thread interleaved with the workers: a host pop, blocking or not, each
with the result of taking the engine lock, or a sink task's push. -/
inductive HostEvent (ρ : Type) where
  | pop (lock : Except SpringError Unit) (queue : String) (sleeps : List (List (String × ρ)))
  | popNonBlocking (lock : Except SpringError Unit) (queue : String)
  | sinkPush (queue : String) (row : ρ)

/-- The event on the repository: the rows it hands to the host, each with its queue, and the
repository it leaves. -/
def HostEvent.run : HostEvent ρ → InMemoryQueueRepository ρ →
    List (String × ρ) × InMemoryQueueRepository ρ
  | .pop lock queue sleeps, repo =>
    ((handedByPop (springPop lock repo queue sleeps).1).map (queue, ·),
      (springPop lock repo queue sleeps).2)
  | .popNonBlocking lock queue, repo =>
    ((handedByPopNonBlocking (springPopNonBlocking lock repo queue).1).map (queue, ·),
      (springPopNonBlocking lock repo queue).2)
  | .sinkPush queue row, repo => ([], repo.push queue row)

/-- The events one after another: every row handed to the host, in order, and the last
repository. -/
def session : List (HostEvent ρ) → InMemoryQueueRepository ρ →
    List (String × ρ) × InMemoryQueueRepository ρ
  | [], repo => ([], repo)
  | e :: es, repo =>
    ((e.run repo).1 ++ (session es (e.run repo).2).1, (session es (e.run repo).2).2)

theorem rowsOf_map_pair (queue q : String) (rows : List ρ) :
    rowsOf q (rows.map (queue, ·)) = if queue = q then rows else [] := by
  induction rows with
  | nil => simp
  | cons row rows ih => by_cases h : queue = q <;> simp_all [rowsOf_cons]

/-- One event keeps the FIFO invariant, and the rows it hands to the host from a queue are what
it popped from it. -/
theorem HostEvent.run_fifo (e : HostEvent ρ) (h : repo.Fifo) :
    (e.run repo).2.Fifo ∧ ∀ q, (e.run repo).2.popped q = repo.popped q ++ rowsOf q (e.run repo).1 := by
  cases e with
  | pop lock queue sleeps => simpa [HostEvent.run, rowsOf_map_pair] using springPop_fifo h lock sleeps
  | popNonBlocking lock queue =>
    simpa [HostEvent.run, rowsOf_map_pair] using springPopNonBlocking_fifo h lock
  | sinkPush queue row => exact ⟨push_fifo h queue row, by simp [HostEvent.run]⟩

theorem session_fifo (es : List (HostEvent ρ)) (h : repo.Fifo) :
    (session es repo).2.Fifo ∧
      ∀ q, (session es repo).2.popped q = repo.popped q ++ rowsOf q (session es repo).1 := by
  induction es generalizing repo with
  | nil => simpa [session] using h
  | cons e es ih =>
    obtain ⟨hf, hp⟩ := e.run_fifo h
    obtain ⟨hf', hp'⟩ := ih hf
    exact ⟨hf', fun q => by simp [session, hp', hp]⟩

/-- From declared queues that are empty, after any interleaving of host pops, blocking or not,
with sink pushes, the rows handed to the host from each declared queue followed by the rows it
still holds are exactly the rows pushed to it, in push order: none lost, duplicated or
reordered. -/
theorem session_delivers_in_order (queues : List String) (es : List (HostEvent ρ)) (q : String)
    (rows : List ρ) (hq : (session es (fresh queues)).2.get q = some rows) :
    rowsOf q (session es (fresh queues)).1 ++ rows = (session es (fresh queues)).2.pushed q := by
  obtain ⟨hf, hp⟩ := session_fifo es (fresh_fifo queues)
  have := hf q rows hq
  rw [hp q] at this
  simpa [fresh] using this

/-- A sink pushes `1`; a non-blocking pop takes it; a blocking pop finds the queue empty, sleeps
while the sink pushes `2`, and takes it, so the push planned for its second sleep never happens;
the sink pushes `4`. -/
def popsSession : List (HostEvent Nat) :=
  [.sinkPush "q" 1, .popNonBlocking (.ok ()) "q", .pop (.ok ()) "q" [[("q", 2)], [("q", 3)]],
    .sinkPush "q" 4]

theorem session_delivers_in_order_pops :
    (session popsSession (fresh ["q"])).2.get "q" = some [4] ∧
      rowsOf "q" (session popsSession (fresh ["q"])).1 ++ [4] =
        (session popsSession (fresh ["q"])).2.pushed "q" :=
  ⟨rfl, session_delivers_in_order ["q"] _ "q" [4] rfl⟩

/-! ## Commands -/

/-- `spring_command`: the engine lock's result `lock` (`engine.get()?`), then compile the SQL
against the current pipeline and apply the resulting `AlterPipeline` command with the engine's
`alter_pipeline`. The SQL processor is not among the sources: `compile` gives the command, one
mutator call, or the compiler's error. -/
def springCommand (compile : String → Pipeline → Except SpringError Mutation) (current : Pipeline)
    (lock : Except SpringError Unit) (sql : String) : Except SpringError Unit × Pipeline :=
  match lock with
  | .error e => (.error e, current)
  | .ok () =>
    match compile sql current with
    | .error e => (.error e, current)
    | .ok command => alterPipeline current command

/-- The calls one after another, each with its lock result and SQL text and on the pipeline the
previous one left: their results and the last pipeline. -/
def springCommands (compile : String → Pipeline → Except SpringError Mutation) :
    Pipeline → List (Except SpringError Unit × String) → List (Except SpringError Unit) × Pipeline
  | current, [] => ([], current)
  | current, c :: calls =>
    ((springCommand compile current c.1 c.2).1 ::
        (springCommands compile (springCommand compile current c.1 c.2).2 calls).1,
      (springCommands compile (springCommand compile current c.1 c.2).2 calls).2)

variable (compile : String → Pipeline → Except SpringError Mutation)

/-- A command either fails and leaves the pipeline, or took the lock, compiled to a mutator call
that succeeded on the current pipeline, and left what that call left. -/
theorem springCommand_cases (current : Pipeline) (lock : Except SpringError Unit) (sql : String) :
    ((springCommand compile current lock sql).1.isOk = false ∧
        (springCommand compile current lock sql).2 = current) ∨
      (lock = .ok () ∧ ∃ m, compile sql current = .ok m ∧ (current.apply m).1 = .ok () ∧
        (springCommand compile current lock sql).1 = .ok () ∧
        (springCommand compile current lock sql).2 = (current.apply m).2) := by
  unfold springCommand alterPipeline
  rcases lock with e | ⟨⟩
  · exact .inl ⟨rfl, rfl⟩
  cases hc : compile sql current with
  | error e => exact .inl ⟨rfl, rfl⟩
  | ok m =>
    rcases h : current.apply m with ⟨_ | ⟨⟩, next⟩
    · exact .inl ⟨by simp [h, Except.isOk, Except.toBool], by simp [h]⟩
    · exact .inr ⟨rfl, m, rfl, by simp [h], by simp [h], by simp [h]⟩

/-- After any sequence of calls from `p`, the pipeline is the run of accepted mutator calls whose
`k`-th was compiled, by the `k`-th successful call of the sequence, against the pipeline the first
`k` left. -/
theorem springCommands_applyAll (p : Pipeline) (calls : List (Except SpringError Unit × String)) :
    ∃ (ms : List Mutation) (succ : List (Except SpringError Unit × String)),
      (springCommands compile p calls).2 = p.applyAll ms ∧ succ.Sublist calls ∧
      succ.length = ms.length ∧
      ms.length = ((springCommands compile p calls).1.filter Except.isOk).length ∧
      ∀ k c m, succ[k]? = some c → ms[k]? = some m →
        c.1 = .ok () ∧ compile c.2 (p.applyAll (ms.take k)) = .ok m ∧
          ((p.applyAll (ms.take k)).apply m).1 = .ok () := by
  induction calls generalizing p with
  | nil => exact ⟨[], [], rfl, .slnil, rfl, rfl, by simp⟩
  | cons c calls ih =>
    rcases springCommand_cases compile p c.1 c.2 with ⟨hr, hp⟩ | ⟨hlock, m, hc, hok, hr, hp⟩
    · obtain ⟨ms, succ, hms, hsub, hlen, hcount, hk⟩ := ih p
      refine ⟨ms, succ, ?_, hsub.cons c, hlen, ?_, hk⟩
      · rw [springCommands, hp, hms]
      · simp [springCommands, hr, hp, hcount]
    · obtain ⟨ms, succ, hms, hsub, hlen, hcount, hk⟩ := ih (p.apply m).2
      refine ⟨m :: ms, c :: succ, ?_, hsub.cons₂ c, by simp [hlen], ?_, ?_⟩
      · rw [springCommands, hp, hms]; rfl
      · simp [springCommands, hr, hp, hcount, Except.isOk, Except.toBool]
      · rintro (_ | k) c' m' hc' hm'
        · simp only [List.getElem?_cons_zero, Option.some.injEq] at hc' hm'
          subst hc' hm'
          exact ⟨hlock, hc, hok⟩
        · rw [List.getElem?_cons_succ] at hc' hm'
          exact hk k c' m' hc' hm'

/-- The engine's pipeline after any sequence of `spring_command` calls from `Pipeline::new(v)` is
the run of the mutator calls of the calls that succeeded, in order: each took the engine lock and
compiled, against the pipeline the earlier ones left, to a call that succeeded there. So the
pipeline keeps the pipeline invariants, and its version is `v` plus the number of successes. -/
theorem springCommands_reachable (v : PipelineVersion) (calls : List (Except SpringError Unit × String)) :
    ∃ (ms : List Mutation) (succ : List (Except SpringError Unit × String)),
      (springCommands compile (Pipeline.new v) calls).2 = (Pipeline.new v).applyAll ms ∧
      succ.Sublist calls ∧ succ.length = ms.length ∧
      ms.length = ((springCommands compile (Pipeline.new v) calls).1.filter Except.isOk).length ∧
      (∀ k c m, succ[k]? = some c → ms[k]? = some m →
        c.1 = .ok () ∧ compile c.2 ((Pipeline.new v).applyAll (ms.take k)) = .ok m ∧
          (((Pipeline.new v).applyAll (ms.take k)).apply m).1 = .ok ()) ∧
      (springCommands compile (Pipeline.new v) calls).2.Invariant ∧
      (springCommands compile (Pipeline.new v) calls).2.version.val = v.val + ms.length := by
  obtain ⟨ms, succ, hms, hsub, hlen, hcount, hk⟩ := springCommands_applyAll compile (Pipeline.new v) calls
  refine ⟨ms, succ, hms, hsub, hlen, hcount, hk, ?_, ?_⟩
  · rw [hms]
    exact Pipeline.applyAll_invariant ms (Pipeline.invariant_new v)
  · rw [hms]
    exact Pipeline.applyAll_version ms

end SpringQL
