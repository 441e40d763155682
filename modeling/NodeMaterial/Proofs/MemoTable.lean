import Mathlib.Algebra.GroupWithZero.Nat
import Mathlib.Data.List.Dedup
import Mathlib.Data.List.DropRight
import NodeMaterial.Cache
import NodeMaterial.Proofs.Occurrences

/-!
# A cache is a memo table over the requests that it has served

A history lists the requests that a new cache has served.  What the cache holds, counts
and reports is said here in terms of its history alone: an identity has the outcome of the
first tree that it was compiled with since the last cleanup, and the counters count the
requests that found no outcome.
-/

namespace NodeMaterial

/-- What a cache can be asked; each request to compile comes with its own sink. -/
inductive Request (σ : Type) where
  | compile (id : String) (tree : Authored.Tree) (sink : Cache.Sink σ)
  | get (id : String)
  | contains (id : String)
  | cleanup

namespace Request

variable {σ : Type}

def isCleanup : Request σ → Bool
  | .cleanup => true
  | _ => false

/-- The identity that a request compiles. -/
def compiledId? : Request σ → Option String
  | .compile id _ _ => some id
  | _ => none

/-- The tree with which a request compiles an identity. -/
def treeFor? (id : String) : Request σ → Option Authored.Tree
  | .compile other tree _ => if other = id then some tree else none
  | _ => none

theorem isSome_treeFor? (id : String) (request : Request σ) :
    (request.treeFor? id).isSome = true ↔ request.compiledId? = some id := by
  cases request with
  | compile other tree sink => by_cases same : other = id <;> simp [treeFor?, compiledId?, same]
  | _ => simp [treeFor?, compiledId?]

end Request

/-- Requests, the first one first. -/
abbrev History (σ : Type) := List (Request σ)

namespace History

variable {σ : Type}

/-- The requests since the last cleanup. -/
def recent (history : History σ) : History σ :=
  history.rtakeWhile (!·.isCleanup)

/-- The tree with which an identity was first compiled since the last cleanup. -/
def firstTree? (history : History σ) (id : String) : Option Authored.Tree :=
  history.recent.findSome? (Request.treeFor? id)

/-- The identities that were compiled since the last cleanup, each once. -/
def compiledIds (history : History σ) : List String :=
  (history.recent.filterMap Request.compiledId?).dedup

/-- The tree of a request that finds no outcome, after a past. -/
def missed? (past : History σ) : Request σ → Option Authored.Tree
  | .compile id tree _ => if id ∈ past.compiledIds then none else some tree
  | _ => none

/-- The trees of the requests that find no outcome, after a past. -/
def missesAfter (past : History σ) : History σ → List Authored.Tree
  | [] => []
  | request :: future =>
      (past.missed? request).toList ++ missesAfter (past ++ [request]) future

/-- The trees of the requests that found no outcome. -/
def misses (history : History σ) : List Authored.Tree :=
  missesAfter [] history

/-! ## Histories with one more request -/

variable (history : History σ)

theorem recent_cleanup : recent (history ++ [.cleanup]) = [] :=
  List.rtakeWhile_concat_neg _ _ _ (by simp [Request.isCleanup])

theorem recent_append {request : Request σ} (stays : request.isCleanup = false) :
    recent (history ++ [request]) = history.recent ++ [request] :=
  List.rtakeWhile_concat_pos _ _ _ (by simp [stays])

theorem firstTree?_append {request : Request σ} (stays : request.isCleanup = false) (id : String) :
    firstTree? (history ++ [request]) id =
      (history.firstTree? id).or (request.treeFor? id) := by
  rw [firstTree?, recent_append history stays, List.findSome?_append, List.findSome?_singleton]
  rfl

theorem mem_compiledIds_iff {history : History σ} {id : String} :
    id ∈ history.compiledIds ↔ (history.firstTree? id).isSome = true := by
  simp only [compiledIds, firstTree?, List.mem_dedup, List.mem_filterMap, List.isSome_findSome?,
    List.any_eq_true, Request.isSome_treeFor?]

/-- Each request adds one miss at most. -/
theorem misses_append (request : Request σ) :
    misses (history ++ [request]) = history.misses ++ (history.missed? request).toList := by
  have later : ∀ past : History σ, missesAfter past (history ++ [request]) =
      missesAfter past history ++ (missed? (past ++ history) request).toList := by
    induction history with
    | nil => simp [missesAfter]
    | cons first others induction => simp [missesAfter, induction]
  exact later []

end History

/-! ## Entries -/

namespace Cache

variable {σ : Type}

/-- Serves a request; looking something up leaves the cache as it is. -/
def serve : Request σ → Action σ Unit
  | .compile id tree sink => discard (compile id tree sink)
  | .get _ => pure ()
  | .contains _ => pure ()
  | .cleanup => change fun cache => cache.cleanup.1

/-- A new cache after a history, and what the sinks have kept by then. -/
def serveAll (history : History σ) (start : σ) : Cache × σ :=
  ((history.forM serve).run (.empty, start)).2

/-- The identities that a cache holds. -/
def keys (cache : Cache) : List String :=
  cache.entries.map (·.1)

theorem mem_keys_iff {cache : Cache} {id : String} :
    id ∈ cache.keys ↔ (cache.get? id).isSome = true := by
  simp [keys, get?, List.find?_isSome]

/-- An entry that is there is not replaced. -/
theorem get?_insert (cache : Cache) (id other : String) (outcome : Except Failure Graph) :
    (cache.insert id outcome).get? other =
      (cache.get? other).or (if id = other then some outcome else none) := by
  rw [get?, insert, List.find?_append, Option.map_or, get?]
  by_cases same : id = other <;> simp [same]

variable {cache : Cache} {id : String}

/-! ## Requests -/

/-- The cache once the outcome for an identity is remembered. -/
def storing (cache : Cache) (id : String) (tree : Authored.Tree) : Cache :=
  (cache.count (tree.compile {}).2).insert id (tree.compile {}).1

/-- All diagnostics are emitted while the cache is the same. -/
theorem run_forM_emit (sink : Sink σ) (pending : List Diagnostic) (cache : Cache) (kept : σ) :
    (pending.forM (emit sink)).run (cache, kept) =
      ((), cache, pending.foldl (fun kept diagnostic => sink cache diagnostic kept) kept) := by
  induction pending generalizing kept with
  | nil => rfl
  | cons diagnostic others induction => exact induction (sink cache diagnostic kept)

/-- A hit gives back the stored result, without a word to the sink. -/
theorem run_compile_of_hit {outcome : Except Failure Graph} (found : cache.get? id = some outcome)
    (tree : Authored.Tree) (sink : Sink σ) (kept : σ) :
    (compile id tree sink).run (cache, kept) = (outcome, cache, kept) := by
  simp only [compile, StateT.run_bind, StateT.run_get, pure_bind, found]
  rfl

/-- A miss stores what it compiles and then tells the sink about all of it. -/
theorem run_compile_of_miss (absent : cache.get? id = none) (tree : Authored.Tree)
    (sink : Sink σ) (kept : σ) :
    (compile id tree sink).run (cache, kept) =
      ((tree.compile {}).1, cache.storing id tree,
        ((tree.compile {}).2.diagnostics ++ [closing id (tree.compile {}).1]).foldl
          (fun kept diagnostic => sink (cache.storing id tree) diagnostic kept) kept) := by
  have emitted := run_forM_emit sink
    ((tree.compile {}).2.diagnostics ++ [closing id (tree.compile {}).1]) (cache.storing id tree)
    kept
  have stored : (compile id tree sink).run (cache, kept) =
      ((tree.compile {}).1,
        ((((tree.compile {}).2.diagnostics ++ [closing id (tree.compile {}).1]).forM
          (emit sink)).run (cache.storing id tree, kept)).2) := by
    simp only [compile, StateT.run_bind, StateT.run_get, pure_bind, absent]
    rfl
  rw [stored, emitted]

/-! ## What a cache holds and counts -/

/-- The number of names that compilations of trees issue. -/
def issuedBy (trees : List Authored.Tree) : Nat :=
  (trees.map fun tree => (tree.compile {}).2.names.issued).sum

/-- A cache holds and counts what a history says. -/
structure Follows (history : History σ) (cache : Cache) : Prop where
  distinct : cache.keys.Nodup
  get : ∀ id, cache.get? id = (history.firstTree? id).map fun tree => (tree.compile {}).1
  builds : cache.builds = history.misses.length
  issued : cache.issued = issuedBy history.misses

variable {history : History σ}

theorem Follows.mem_keys (follows : Follows history cache) :
    id ∈ cache.keys ↔ id ∈ history.compiledIds := by
  rw [mem_keys_iff, follows.get, Option.isSome_map, History.mem_compiledIds_iff]

/-- What a cache holds for an identity whose first tree is known. -/
theorem Follows.get_of_first (follows : Follows history cache) {tree : Authored.Tree}
    (first : history.firstTree? id = some tree) : cache.get? id = some (tree.compile {}).1 := by
  rw [follows.get, first]
  rfl

theorem Follows.get_of_none (follows : Follows history cache)
    (first : history.firstTree? id = none) : cache.get? id = none := by
  rw [follows.get, first]
  rfl

theorem follows_empty : Follows ([] : History σ) .empty where
  distinct := List.nodup_nil
  get _ := rfl
  builds := rfl
  issued := rfl

/-- A request that compiles nothing and forgets nothing leaves what a history says. -/
theorem Follows.look (follows : Follows history cache) {request : Request σ}
    (stays : request.isCleanup = false) (looks : request.compiledId? = none)
    (idle : history.missed? request = none) : Follows (history ++ [request]) cache where
  distinct := follows.distinct
  get id := by
    have none : request.treeFor? id = none := by
      rw [← Option.isNone_iff_eq_none, ← Option.not_isSome, Bool.not_eq_true', ← Bool.not_eq_true,
        Request.isSome_treeFor?, looks]
      simp
    rw [follows.get, history.firstTree?_append stays, none, Option.or_none]
  builds := by simp [history.misses_append, idle, follows.builds]
  issued := by simp [history.misses_append, idle, follows.issued]

/-- A request that finds an outcome leaves the cache as it is. -/
theorem Follows.hit (follows : Follows history cache) {earlier : Authored.Tree}
    (found : history.firstTree? id = some earlier) (tree : Authored.Tree) (sink : Sink σ) :
    Follows (history ++ [.compile id tree sink]) cache := by
  have known : id ∈ history.compiledIds := by simp [History.mem_compiledIds_iff, found]
  have idle : history.missed? (.compile id tree sink) = none := if_pos known
  constructor
  · exact follows.distinct
  · intro other
    rw [follows.get, history.firstTree?_append rfl other, Request.treeFor?]
    by_cases same : id = other
    · rw [← same, found]
      rfl
    · rw [if_neg same, Option.or_none]
  · rw [history.misses_append, idle, follows.builds]
    simp
  · rw [history.misses_append, idle, follows.issued]
    simp

/-- A request that finds no outcome compiles, and its outcome is remembered. -/
theorem Follows.miss (follows : Follows history cache)
    (absent : history.firstTree? id = none) (tree : Authored.Tree) (sink : Sink σ) :
    Follows (history ++ [.compile id tree sink]) (cache.storing id tree) := by
  have unknown : id ∉ history.compiledIds := by simp [History.mem_compiledIds_iff, absent]
  have missed : history.missed? (.compile id tree sink) = some tree := if_neg unknown
  constructor
  · have fresh : id ∉ cache.keys := fun member => unknown (follows.mem_keys.mp member)
    have appended : (cache.keys ++ [id]).Nodup := by
      simpa [List.nodup_append] using ⟨follows.distinct, fun other member same =>
        fresh (same ▸ member)⟩
    simpa [keys, storing, insert, count] using appended
  · intro other
    have counted : (cache.count (tree.compile {}).2).get? other = cache.get? other := rfl
    rw [storing, get?_insert, counted, follows.get, history.firstTree?_append rfl other,
      Request.treeFor?]
    by_cases same : id = other
    · rw [← same, absent]
      simp
    · simp [same]
  · rw [history.misses_append, missed, storing, insert, count, follows.builds]
    simp
  · rw [history.misses_append, missed, storing, insert, count, follows.issued]
    simp [issuedBy]

/-- A cleanup forgets all trees. -/
theorem Follows.cleanup (follows : Follows history cache) :
    Follows (history ++ [.cleanup]) cache.cleanup.1 where
  distinct := List.nodup_nil
  get id := by
    rw [History.firstTree?, history.recent_cleanup]
    rfl
  builds := by
    rw [history.misses_append]
    simpa [History.missed?, Cache.cleanup] using follows.builds
  issued := by
    rw [history.misses_append]
    simpa [History.missed?, Cache.cleanup] using follows.issued

/-- One more request, whatever the sinks have kept. -/
theorem Follows.serve (follows : Follows history cache) (request : Request σ) (kept : σ) :
    Follows (history ++ [request]) ((serve request).run (cache, kept)).2.1 := by
  cases request with
  | compile id tree sink =>
      have served : ((Cache.serve (.compile id tree sink)).run (cache, kept)).2 =
          ((compile id tree sink).run (cache, kept)).2 := rfl
      rw [served]
      cases first : history.firstTree? id with
      | some earlier =>
          rw [run_compile_of_hit (follows.get_of_first first)]
          exact follows.hit first tree sink
      | none =>
          rw [run_compile_of_miss (follows.get_of_none first)]
          exact follows.miss first tree sink
  | get id => exact follows.look rfl rfl rfl
  | contains id => exact follows.look rfl rfl rfl
  | cleanup => exact follows.cleanup

/-- Any number of requests. -/
theorem Follows.serveAll {past : History σ} (follows : Follows past cache) (future : History σ)
    (kept : σ) :
    Follows (past ++ future) ((future.forM Cache.serve).run (cache, kept)).2.1 := by
  induction future generalizing past cache kept with
  | nil => rwa [List.append_nil]
  | cons request others induction =>
      have next := induction (follows.serve request kept)
        ((Cache.serve request).run (cache, kept)).2.2
      rwa [List.append_assoc] at next

/-! ## What a cache answers -/

/-- The fields of a diagnostic, with its code in writing. -/
def fields (diagnostic : Diagnostic) :
    Level × Option String × String × Option String × Option String :=
  (diagnostic.level, diagnostic.code.map Code.text, diagnostic.message, diagnostic.node,
    diagnostic.hint)

/--
A diagnostic closes a compilation: it says that it is done and how large the graph is, or why it
failed, under the code of the failure and at the node that this is about.
-/
def Closes (id : String) (diagnostic : Diagnostic) : Except Failure Graph → Prop
  | .ok graph =>
      fields diagnostic =
        (.info, some "I0001",
          s!"graph '{id}' compiled: {graph.nodes.length} nodes, {graph.edges.length} edges",
          none, none)
  | .error .missingOutput =>
      fields diagnostic =
        (.error, some "E0001", "no output node in node material", none,
          some "add an OUTPUT node and link it to the material result")
  | .error (.configuration (some node) problem) =>
      fields diagnostic = (.error, some "E0100", problem.message, some node, none)
  | .error (.configuration none problem) =>
      fields diagnostic = (.error, some "E0101", problem.message, none, none)
  | .error (.missingBinding node .texture) =>
      fields diagnostic =
        (.error, some "E0200", s!"texture binding missing in node '{node}'", some node, none)
  | .error (.missingBinding node .material) =>
      fields diagnostic =
        (.error, some "E0200", s!"material binding missing in node '{node}'", some node, none)
  | .error (.unknownNode node) =>
      fields diagnostic =
        (.error, some "E0300", s!"link references unknown node '{node}'", some node, none)

/-- The line that ends a compilation says how it went. -/
theorem closes_closing (id : String) (outcome : Except Failure Graph) :
    Closes id (closing id outcome) outcome := by
  rcases outcome with failure | graph
  · rcases failure with _ | ⟨_ | _, _⟩ | ⟨_, _ | _⟩ | _ <;> rfl
  · have size : graph.edgeCount = graph.edges.length := EdgeBag.size_eq_length graph.bag
    rw [Closes, ← size]
    rfl

/--
What a request tells that compiles a tree: what the compilation left in its context, and
then one diagnostic that closes it.  All is told to a sink that sees the outcome among the
entries, and sees it counted.
-/
def Tells (cache : Cache) (id : String) (tree : Authored.Tree) : Prop :=
  ∃ (stored : Cache) (last : Diagnostic),
    stored.get? id = some (tree.compile {}).1 ∧ stored.size = cache.size + 1 ∧
    Closes id last (tree.compile {}).1 ∧
    ∀ (σ : Type) (sink : Sink σ) (kept : σ),
      ((compile id tree sink).run (cache, kept)).2 =
        (stored, ((tree.compile {}).2.diagnostics ++ [last]).foldl
          (fun kept diagnostic => sink stored diagnostic kept) kept)

theorem tells_of_miss (absent : cache.get? id = none) (tree : Authored.Tree) :
    cache.Tells id tree := by
  refine ⟨cache.storing id tree, closing id (tree.compile {}).1, ?_, ?_, closes_closing id _, ?_⟩
  · have counted : (cache.count (tree.compile {}).2).get? id = none := absent
    rw [storing, get?_insert, counted]
    simp
  · exact List.length_append
  · intro σ sink kept
    rw [run_compile_of_miss absent]

/-- Everything that a cache answers, in terms of its history. -/
structure MemoTable (history : History σ) (cache : Cache) : Prop where
  /-- The first tree since the last cleanup decides, whatever tree comes with a request. -/
  outcome : ∀ id tree (τ : Type) (sink : Sink τ) (kept : τ),
    ((compile id tree sink).run (cache, kept)).1 =
      (((history.firstTree? id).getD tree).compile {}).1
  get : ∀ id, cache.get? id = (history.firstTree? id).map fun tree => (tree.compile {}).1
  contains : ∀ id, cache.contains id = true ↔ id ∈ history.compiledIds
  size : cache.size = history.compiledIds.length
  builds : cache.builds = history.misses.length
  issued : cache.issued = issuedBy history.misses
  /-- A request that finds an outcome changes nothing, and tells nothing. -/
  hit : ∀ id tree, id ∈ history.compiledIds → ∀ (τ : Type) (sink : Sink τ) (kept : τ),
    ((compile id tree sink).run (cache, kept)).2 = (cache, kept)
  miss : ∀ id tree, id ∉ history.compiledIds → cache.Tells id tree
  /-- A cleanup counts what it forgets, and forgets no count. -/
  cleanup : cache.cleanup.2 = history.compiledIds.length ∧ cache.cleanup.1.size = 0 ∧
    cache.cleanup.1.builds = cache.builds ∧ cache.cleanup.1.issued = cache.issued

/-- The table has an entry for each id asked for since the last cleanup. -/
theorem Follows.size (follows : Follows history cache) :
    cache.size = history.compiledIds.length := by
  have permuted : cache.keys.Perm history.compiledIds :=
    (List.perm_ext_iff_of_nodup follows.distinct (List.nodup_dedup _)).mpr fun _ =>
      follows.mem_keys
  have held : cache.size = cache.keys.length := (List.length_map _).symm
  exact held.trans permuted.length_eq

/-- After any history, a cache answers as a memo table does, whatever the sinks keep. -/
theorem memoTable_serveAll (history : History σ) (start : σ) :
    MemoTable history (serveAll history start).1 := by
  have follows : Follows history (serveAll history start).1 :=
    (@follows_empty σ).serveAll history start
  generalize (serveAll history start).1 = cache at follows
  constructor
  case outcome =>
    intro id tree τ sink kept
    cases first : history.firstTree? id with
    | some earlier =>
        rw [run_compile_of_hit (follows.get_of_first first)]
        rfl
    | none =>
        rw [run_compile_of_miss (follows.get_of_none first)]
        rfl
  case get => exact follows.get
  case contains =>
    intro id
    rw [contains, ← mem_keys_iff, follows.mem_keys]
  case size => exact follows.size
  case builds => exact follows.builds
  case issued => exact follows.issued
  case hit =>
    intro id tree known τ sink kept
    rcases Option.isSome_iff_exists.mp (History.mem_compiledIds_iff.mp known) with
      ⟨earlier, first⟩
    rw [run_compile_of_hit (follows.get_of_first first)]
  case miss =>
    intro id tree unknown
    rw [History.mem_compiledIds_iff, Bool.not_eq_true, Option.isSome_eq_false_iff,
      Option.isNone_iff_eq_none] at unknown
    exact tells_of_miss (follows.get_of_none unknown) tree
  case cleanup => exact ⟨follows.size, rfl, rfl, rfl⟩

/-- A number is shown. -/
def shownNumber : Authored.Tree where
  nodes :=
    [{ name := "V", type := "VALUE", outputs := [.titled "Value" true .zero] },
     { name := "Out", type := "OUTPUT", inputs := [.titled "Color" true .zero] }]
  links := [⟨"V", "Value", "Out", "Color"⟩]

/-- A node that is refused. -/
def refusedMath : Authored.Tree where
  nodes := [{ name := "M", type := "MATH", operation := some "HYPOT" }]

/-- A sink that keeps the code of each diagnostic and how many entries it has seen then. -/
def witnessing : Sink (List (Option String × Nat)) :=
  fun cache diagnostic kept => kept ++ [(diagnostic.code.map Code.text, cache.size)]

/-- Two identities are compiled twice each, and forgotten in between. -/
def twiceEach : History (List (Option String × Nat)) :=
  [.compile "a" shownNumber witnessing, .compile "a" refusedMath witnessing, .contains "a",
   .cleanup, .compile "b" refusedMath witnessing, .compile "b" shownNumber witnessing]

/-- Each id is asked for twice, with a cleanup between the ids. -/
theorem memoTable_twiceEach :
    twiceEach.compiledIds = ["b"] ∧ twiceEach.misses = [shownNumber, refusedMath] ∧
      (serveAll twiceEach []).2 = [(some "I0001", 1), (some "E0100", 1)] ∧
      (serveAll twiceEach []).1.builds = 2 ∧ MemoTable twiceEach (serveAll twiceEach []).1 :=
  ⟨by decide, by decide, by decide +kernel,
    (memoTable_serveAll twiceEach []).builds.trans (by decide), memoTable_serveAll twiceEach []⟩

end Cache

end NodeMaterial
