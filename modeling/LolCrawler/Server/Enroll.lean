import LolCrawler.Broker.State
import LolCrawler.Foundation.Run
import LolCrawler.Foundation.Table

/-! # Enrollment of nodes

A request to enroll checks its name against the registry, has its invite consumed, adds
the node to the store, and enters it into the registry. Requests interleave between these
four steps; a restart drops them and loads the registry from the store.

The outcome of the invite and of the write to the store can be any. The token and its
hash are made up of what the request is given; node ids do not run out.
-/

namespace LolCrawler.Server

open Foundation

structure NodeRec where
  name : String
  tokenSha256Hex : String
  createdMs : Nat
deriving DecidableEq

/-- `[a-z0-9_-]{1,32}` -/
def validName (name : String) : Bool :=
  (1 ≤ name.utf8ByteSize && name.utf8ByteSize ≤ 32) &&
    name.toList.all fun c =>
      ('a' ≤ c && c ≤ 'z') || ('0' ≤ c && c ≤ '9') || c = '-' || c = '_'

def nameTaken (registry : Registry) (name : String) : Bool :=
  registry.any fun entry => entry.2.name = name

/-- How far a request has come. -/
inductive EnrollPhase where
  /-- The name was free. -/
  | checked
  /-- The invite was consumed. -/
  | invited
  /-- The node is in the store. -/
  | persisted (node : Nat)
deriving DecidableEq

structure Enrolling where
  name : String
  phase : EnrollPhase
deriving DecidableEq

structure Enrollment where
  /-- `T_NODES` -/
  nodes : Table Nat NodeRec
  /-- `next_node_id` in `T_META` -/
  nextNodeId : Option Nat
  registry : Registry
  calls : Table Nat Enrolling

inductive EnrollEvent where
  | check (id : Nat) (name : String)
  | invite (id : Nat) (accepted : Bool)
  | persist (id : Nat) (hash : String) (nowMs : Nat) (written : Bool)
  | register (id : Nat)
  /-- The client is gone while the request waits for the store. -/
  | drop (id : Nat)
  | restart
deriving DecidableEq

namespace Enrollment

def new : Enrollment := ⟨.empty, none, [], .empty⟩

def put (server : Enrollment) (id : Nat) (call : Enrolling) : Enrollment :=
  { server with calls := server.calls.insert id call }

/-- The request gets its response, or none. -/
def close (server : Enrollment) (id : Nat) : Enrollment :=
  { server with calls := server.calls.remove id }

def nodeAdd (server : Enrollment) (name hash : String) (nowMs : Nat) : Nat × Enrollment :=
  let id := server.nextNodeId.getD 1
  (id, { server with
    nodes := server.nodes.insert id ⟨name, hash, nowMs⟩
    nextNodeId := some (id + 1) })

/-- The registry at startup. -/
def load (nodes : List (Nat × NodeRec)) : Registry :=
  nodes.foldl (fun registry node => registry.enrollRuntime node.1 node.2.name) []

def step (server : Enrollment) : EnrollEvent → Option Enrollment
  | .check id name =>
      if server.calls.get id = none then
        if !validName name || nameTaken server.registry name then some server
        else some (server.put id ⟨name, .checked⟩)
      else none
  | .invite id accepted =>
      match server.calls.get id with
      | some ⟨name, .checked⟩ =>
          some (if accepted then server.put id ⟨name, .invited⟩ else server.close id)
      | _ => none
  | .persist id hash nowMs written =>
      match server.calls.get id with
      | some ⟨name, .invited⟩ =>
          if written then
            let (node, server) := server.nodeAdd name hash nowMs
            some (server.put id ⟨name, .persisted node⟩)
          else some (server.close id)
      | _ => none
  | .register id =>
      match server.calls.get id with
      | some ⟨name, .persisted node⟩ =>
          some ({ server with registry := server.registry.enrollRuntime node name }.close id)
      | _ => none
  | .drop id =>
      match server.calls.get id with
      | some ⟨_, .invited⟩ => some (server.close id)
      | _ => none
  | .restart => some { server with registry := load server.nodes.entries, calls := .empty }

/-- The invite is consumed for a name that is still free, and that no other request with a consumed
invite is about to take. -/
def careful (server : Enrollment) : EnrollEvent → Bool
  | .invite id true =>
      (server.calls.get id).all fun call =>
        !nameTaken server.registry call.name && server.calls.entries.all fun entry =>
          entry.2.name ≠ call.name || entry.2.phase = .checked
  | _ => true

end Enrollment

def EnrollStep (server : Enrollment) (event : EnrollEvent) (next : Enrollment) : Prop :=
  server.step event = some next

def CarefulEnroll (server : Enrollment) (event : EnrollEvent) (next : Enrollment) : Prop :=
  server.step event = some next ∧ server.careful event

/-- No two nodes of one name, in the store or in the registry. -/
def UniqueNames (server : Enrollment) : Prop :=
  (server.nodes.entries.map fun entry => entry.2.name).Nodup ∧
    (server.registry.map fun entry => entry.2.name).Nodup

/-! ## Nodes on their way -/

/-- A request that has used its invite. -/
def Enrolling.entitled (call : Enrolling) : Bool := call.phase ≠ .checked

/-- The store has one node of a name. The registry has the nodes of the store, but for those on
their way to it. -/
structure Named (server : Enrollment) : Prop where
  distinct : ∀ id other rec twin, server.nodes.get id = some rec →
    server.nodes.get other = some twin → rec.name = twin.name → id = other
  below : ∀ id rec, server.nodes.get id = some rec → id < server.nextNodeId.getD 1
  stored : ∀ entry ∈ server.registry, ∃ rec,
    server.nodes.get entry.1 = some rec ∧ rec.name = entry.2.name
  ids : (server.registry.map Prod.fst).Nodup
  known : ∀ id rec, server.nodes.get id = some rec → nameTaken server.registry rec.name ∨
    ∃ call name, server.calls.get call = some ⟨name, .persisted id⟩
  persisted : ∀ call name id, server.calls.get call = some ⟨name, .persisted id⟩ →
    ∃ rec, server.nodes.get id = some rec ∧ rec.name = name
  free : ∀ call name, server.calls.get call = some ⟨name, .invited⟩ →
    ∀ id rec, server.nodes.get id = some rec → rec.name ≠ name
  alone : ∀ call other one two, server.calls.get call = some one →
    server.calls.get other = some two → one.entitled → two.entitled → one.name = two.name →
      call = other

/-- A name is taken if a node has it. -/
theorem nameTaken_iff {registry : Registry} {name : String} :
    nameTaken registry name = true ↔ ∃ entry ∈ registry, entry.2.name = name := by
  simp [nameTaken]

/-- A node of the registry was there before, or is the new one. -/
theorem mem_enrollRuntime {registry : Registry} {id : Nat} {name : String} {entry : Nat × NodeRt}
    (inside : entry ∈ registry.enrollRuntime id name) :
    (entry ∈ registry ∧ entry.1 ≠ id) ∨ (entry.1 = id ∧ entry.2.name = name) := by
  rw [Registry.enrollRuntime, List.mem_append] at inside
  rcases inside with old | new
  · obtain ⟨there, other⟩ := List.mem_filter.mp old
    exact .inl ⟨there, of_decide_eq_true other⟩
  · rw [List.mem_singleton.mp new]
    exact .inr ⟨rfl, rfl⟩

/-- A node that enrolls takes its name. -/
theorem nameTaken_enrollRuntime (registry : Registry) (id : Nat) (name : String) :
    nameTaken (registry.enrollRuntime id name) name = true := by
  simp [nameTaken, Registry.enrollRuntime]

/-- A node that enrolls has an id of its own. -/
theorem ids_enrollRuntime {registry : Registry} (ids : (registry.map Prod.fst).Nodup) (id : Nat)
    (name : String) : ((registry.enrollRuntime id name).map Prod.fst).Nodup := by
  rw [Registry.enrollRuntime, List.map_append, List.nodup_append]
  refine ⟨ids.sublist (List.filter_sublist.map _), List.nodup_singleton _,
    fun one inside last same equal => ?_⟩
  rw [List.map_singleton, List.mem_singleton] at same
  obtain ⟨entry, kept, rfl⟩ := List.mem_map.mp inside
  obtain ⟨-, other⟩ := List.mem_filter.mp kept
  exact of_decide_eq_true other (equal.trans same)

namespace Named

variable {server next : Enrollment} {id : Nat} {name : String}

/-- A request that is not on its way to the registry ends. -/
theorem close (named : Named server)
    (idle : ∀ name node, server.calls.get id ≠ some ⟨name, .persisted node⟩) :
    Named (server.close id) := by
  have before : ∀ {call found}, (server.close id).calls.get call = some found →
      server.calls.get call = some found := by
    intro call found there
    rw [Enrollment.close, Table.get_remove] at there
    split at there
    · cases there
    · exact there
  refine ⟨named.distinct, named.below, named.stored, named.ids, fun node rec there => ?_,
    fun call name node there => named.persisted call name node (before there),
    fun call name there => named.free call name (before there),
    fun call other one two here there =>
      named.alone call other one two (before here) (before there)⟩
  rcases named.known node rec there with taken | ⟨call, name, way⟩
  · exact .inl taken
  · refine .inr ⟨call, name, ?_⟩
    rw [Enrollment.close, Table.get_remove, if_neg]
    · exact way
    · intro same
      rw [same] at way
      exact idle name node way

/-- A request that was not on its way to the registry goes on. -/
theorem put (named : Named server) {call : Enrolling}
    (idle : ∀ name node, server.calls.get id ≠ some ⟨name, .persisted node⟩)
    (waits : ∀ node, call.phase ≠ .persisted node)
    (free : call.entitled → ∀ node rec, server.nodes.get node = some rec → rec.name ≠ call.name)
    (alone : call.entitled → ∀ other two, other ≠ id → server.calls.get other = some two →
      two.entitled → two.name ≠ call.name) : Named (server.put id call) := by
  have now : ∀ {other found}, (server.put id call).calls.get other = some found →
      (other = id ∧ found = call) ∨ (other ≠ id ∧ server.calls.get other = some found) := by
    intro other found there
    rw [Enrollment.put, Table.get_insert] at there
    split at there
    · next same => exact .inl ⟨same, (Option.some.inj there).symm⟩
    · next different => exact .inr ⟨different, there⟩
  refine ⟨named.distinct, named.below, named.stored, named.ids, fun node rec there => ?_,
    fun other name node there => ?_, fun other name there => ?_,
    fun first second one two here there entitled entitled' same => ?_⟩
  · rcases named.known node rec there with taken | ⟨other, name, way⟩
    · exact .inl taken
    · refine .inr ⟨other, name, ?_⟩
      rw [Enrollment.put, Table.get_insert_of_ne]
      · exact way
      · intro same
        rw [same] at way
        exact idle name node way
  · rcases now there with ⟨-, rfl⟩ | ⟨-, there⟩
    · exact absurd rfl (waits node)
    · exact named.persisted other name node there
  · rcases now there with ⟨-, rfl⟩ | ⟨-, there⟩
    · exact free rfl
    · exact named.free other name there
  · rcases now here with ⟨mine, rfl⟩ | ⟨other, before⟩
    · rcases now there with ⟨yours, rfl⟩ | ⟨other, before⟩
      · rw [mine, yours]
      · exact absurd same.symm (alone entitled second two other before entitled')
    · rcases now there with ⟨yours, rfl⟩ | ⟨-, before'⟩
      · exact absurd same (alone entitled' first one other before entitled)
      · exact named.alone first second one two before before' entitled entitled' same

/-- The node of a request with a consumed invite is stored. -/
theorem persist (named : Named server) (there : server.calls.get id = some ⟨name, .invited⟩)
    (hash : String) (nowMs : Nat) :
    Named ((server.nodeAdd name hash nowMs).2.put id
      ⟨name, .persisted (server.nodeAdd name hash nowMs).1⟩) := by
  have new : ∀ node rec, server.nodes.get node = some rec → node ≠ server.nextNodeId.getD 1 :=
    fun node rec held => Nat.ne_of_lt (named.below node rec held)
  have stored : ∀ {node found}, ((server.nodeAdd name hash nowMs).2).nodes.get node = some found →
      (node = server.nextNodeId.getD 1 ∧ found.name = name) ∨
        (node ≠ server.nextNodeId.getD 1 ∧ server.nodes.get node = some found) := by
    intro node found held
    rw [Enrollment.nodeAdd, Table.get_insert] at held
    split at held
    · next same =>
        cases held
        exact .inl ⟨same, rfl⟩
    · next different => exact .inr ⟨different, held⟩
  have kept : ∀ {node found}, server.nodes.get node = some found →
      ((server.nodeAdd name hash nowMs).2).nodes.get node = some found := by
    intro node found held
    rw [Enrollment.nodeAdd, Table.get_insert_of_ne _ _ (new node found held)]
    exact held
  have now : ∀ {other found}, ((server.nodeAdd name hash nowMs).2.put id
      ⟨name, .persisted (server.nodeAdd name hash nowMs).1⟩).calls.get other = some found →
      (other = id ∧ found = ⟨name, .persisted (server.nextNodeId.getD 1)⟩) ∨
        (other ≠ id ∧ server.calls.get other = some found) := by
    intro other found way
    rw [Enrollment.put, Table.get_insert] at way
    split at way
    · next same => exact .inl ⟨same, (Option.some.inj way).symm⟩
    · next different => exact .inr ⟨different, way⟩
  refine ⟨fun one two rec twin held held' same => ?_, fun node rec held => ?_,
    fun entry inside => ?_, named.ids, fun node rec held => ?_, fun other name' node way => ?_,
    fun other name' way node rec held => ?_,
    fun first second one two way way' first' second' same => ?_⟩
  · rcases stored held with ⟨mine, called⟩ | ⟨-, held⟩
    · rcases stored held' with ⟨yours, -⟩ | ⟨-, held'⟩
      · rw [mine, yours]
      · exact absurd (same.symm.trans called) (named.free id name there two twin held')
    · rcases stored held' with ⟨-, called⟩ | ⟨-, held'⟩
      · exact absurd (same.trans called) (named.free id name there one rec held)
      · exact named.distinct one two rec twin held held' same
  · rcases stored held with ⟨rfl, -⟩ | ⟨-, held⟩
    · exact Nat.lt_succ_self _
    · exact Nat.lt_succ_of_lt (named.below node rec held)
  · obtain ⟨rec, held, called⟩ := named.stored entry inside
    exact ⟨rec, kept held, called⟩
  · rcases stored held with ⟨rfl, called⟩ | ⟨-, held⟩
    · refine .inr ⟨id, name, ?_⟩
      rw [Enrollment.put, Table.get_insert_self]
      rfl
    · rcases named.known node rec held with taken | ⟨call, other, way⟩
      · exact .inl taken
      · refine .inr ⟨call, other, ?_⟩
        rw [Enrollment.put, Table.get_insert_of_ne]
        · exact way
        · intro same
          rw [same, there] at way
          cases way
  · rcases now way with ⟨-, same⟩ | ⟨-, way⟩
    · cases same
      exact ⟨⟨name, hash, nowMs⟩, Table.get_insert_self _ _ _, rfl⟩
    · obtain ⟨rec, held, called⟩ := named.persisted other name' node way
      exact ⟨rec, kept held, called⟩
  · rcases now way with ⟨-, same⟩ | ⟨different, way⟩
    · cases same
    · rcases stored held with ⟨-, called⟩ | ⟨-, held⟩
      · intro same
        exact different (named.alone other id _ _ way there rfl rfl (same.symm.trans called))
      · exact named.free other name' way node rec held
  · rcases now way with ⟨mine, rfl⟩ | ⟨-, way⟩
    · rcases now way' with ⟨yours, rfl⟩ | ⟨-, way'⟩
      · rw [mine, yours]
      · rw [mine]
        exact named.alone id second _ two there way' rfl second' same
    · rcases now way' with ⟨yours, rfl⟩ | ⟨-, way'⟩
      · rw [yours]
        exact named.alone first id one _ way there first' rfl same
      · exact named.alone first second one two way way' first' second' same

/-- The node of a request is in the registry. -/
theorem register (named : Named server) {node : Nat}
    (there : server.calls.get id = some ⟨name, .persisted node⟩) :
    Named ({ server with registry := server.registry.enrollRuntime node name }.close id) := by
  obtain ⟨rec, held, called⟩ := named.persisted id name node there
  have before : ∀ {call found}, (server.calls.remove id).get call = some found →
      call ≠ id ∧ server.calls.get call = some found := by
    intro call found way
    rw [Table.get_remove] at way
    split at way
    · cases way
    · next different => exact ⟨different, way⟩
  refine ⟨named.distinct, named.below, fun entry inside => ?_, ids_enrollRuntime named.ids _ _,
    fun other found stored => ?_,
    fun call name node way => named.persisted call name node (before way).2,
    fun call name way => named.free call name (before way).2,
    fun call other one two way way' =>
      named.alone call other one two (before way).2 (before way').2⟩
  · rcases mem_enrollRuntime inside with ⟨old, -⟩ | ⟨same, new⟩
    · exact named.stored entry old
    · exact ⟨rec, by rw [same]; exact held, called.trans new.symm⟩
  · by_cases same : other = node
    · left
      rw [same] at stored
      cases stored.symm.trans held
      rw [called]
      exact nameTaken_enrollRuntime _ _ _
    · rcases named.known other found stored with taken | ⟨call, name', way⟩
      · left
        obtain ⟨entry, inside, here⟩ := nameTaken_iff.mp taken
        refine nameTaken_iff.mpr ⟨entry, List.mem_append_left _ (List.mem_filter.mpr
          ⟨inside, decide_eq_true fun equal => ?_⟩), here⟩
        obtain ⟨twin, held', called'⟩ := named.stored entry inside
        exact same (named.distinct other entry.1 found twin stored held' (here.symm.trans
          called'.symm) |>.trans equal)
      · refine .inr ⟨call, name', ?_⟩
        rw [Enrollment.close, Table.get_remove, if_neg]
        · exact way
        · intro equal
          rw [equal, there] at way
          cases way
          exact same rfl

/-- The registry of a list of nodes. -/
theorem load_spec (nodes : List (Nat × NodeRec)) (registry : Registry)
    (distinct : (registry.map Prod.fst ++ nodes.map Prod.fst).Nodup) :
    (nodes.foldl (fun registry node => registry.enrollRuntime node.1 node.2.name) registry).map
        (fun entry => (entry.1, entry.2.name)) =
      registry.map (fun entry => (entry.1, entry.2.name)) ++
        nodes.map fun node => (node.1, node.2.name) := by
  induction nodes generalizing registry with
  | nil => simp
  | cons node nodes ih =>
      have absent : ∀ entry ∈ registry, entry.1 ≠ node.1 := by
        intro entry inside same
        rw [List.nodup_append] at distinct
        exact distinct.2.2 entry.1 (List.mem_map_of_mem inside) node.1 (by simp) same
      have whole : registry.filter (fun entry => entry.1 ≠ node.1) = registry :=
        List.filter_eq_self.mpr fun entry inside => decide_eq_true (absent entry inside)
      rw [List.foldl_cons, ih]
      · rw [Registry.enrollRuntime, whole]
        simp
      · rw [Registry.enrollRuntime, whole]
        simpa using distinct

/-- The registry is loaded from the store. -/
theorem restart (named : Named server) :
    Named { server with
      registry := Enrollment.load server.nodes.entries
      calls := .empty } := by
  have loaded : (Enrollment.load server.nodes.entries).map (fun entry => (entry.1, entry.2.name)) =
      server.nodes.entries.map fun node => (node.1, node.2.name) :=
    load_spec server.nodes.entries [] server.nodes.distinct
  refine ⟨named.distinct, named.below, fun entry inside => ?_, ?_, fun id rec held => .inl ?_,
    fun _ _ _ way => (by cases way), fun _ _ way => (by cases way),
    fun _ _ _ _ way => (by cases way)⟩
  · have there : (entry.1, entry.2.name) ∈
        server.nodes.entries.map fun node => (node.1, node.2.name) := by
      rw [← loaded]
      exact List.mem_map.mpr ⟨entry, inside, rfl⟩
    obtain ⟨⟨id, rec⟩, held, same⟩ := List.mem_map.mp there
    obtain ⟨rfl, called⟩ := Prod.mk.inj same
    exact ⟨rec, Table.get_eq_some.mpr held, called⟩
  · have ids := congrArg (List.map Prod.fst) loaded
    rw [List.map_map, List.map_map] at ids
    have distinct : ((Enrollment.load server.nodes.entries).map Prod.fst).Nodup :=
      ids ▸ server.nodes.distinct
    exact distinct
  · have there : (id, rec.name) ∈
        (Enrollment.load server.nodes.entries).map fun entry => (entry.1, entry.2.name) := by
      rw [loaded]
      exact List.mem_map.mpr ⟨(id, rec), Table.get_eq_some.mp held, rfl⟩
    obtain ⟨entry, inside, same⟩ := List.mem_map.mp there
    exact nameTaken_iff.mpr ⟨entry, inside, (Prod.mk.inj same).2⟩

/-- A name whose invite is consumed is in nobody else's hands. -/
theorem invite (named : Named server) (there : server.calls.get id = some ⟨name, .checked⟩)
    (careful : server.careful (.invite id true)) : Named (server.put id ⟨name, .invited⟩) := by
  rw [Enrollment.careful, there, Option.all_some, Bool.and_eq_true, Bool.not_eq_true',
    List.all_eq_true] at careful
  obtain ⟨untaken, others⟩ := careful
  have checked : ∀ other two, server.calls.get other = some two → two.entitled →
      two.name ≠ name := by
    intro other two way entitled same
    have here := others (other, two) (Table.get_eq_some.mp way)
    simp only [same, ne_eq, not_true_eq_false, decide_false, Bool.false_or,
      decide_eq_true_eq] at here
    rw [Enrolling.entitled, here] at entitled
    cases entitled
  apply named.put
  · intro other node way
    rw [there] at way
    cases way
  · intro node same
    cases same
  · intro _ node rec held same
    rcases named.known node rec held with taken | ⟨call, other, way⟩
    · rw [same, untaken] at taken
      cases taken
    · obtain ⟨rec', held', called⟩ := named.persisted call other node way
      cases held.symm.trans held'
      exact checked call _ way rfl (called.symm.trans same)
  · intro _ other two _ way entitled
    exact checked other two way entitled

/-- **One step** keeps the names unique, if it is careful. -/
theorem step {event : EnrollEvent} (named : Named server)
    (step : CarefulEnroll server event next) : Named next := by
  obtain ⟨done, careful⟩ := step
  cases event with
  | check id name =>
      rw [Enrollment.step] at done
      split at done
      · next idle =>
          split at done
          · cases done
            exact named
          · cases done
            apply named.put
            · intro other node way
              rw [idle] at way
              cases way
            · intro node same
              cases same
            · intro entitled
              cases entitled
            · intro entitled
              cases entitled
      · cases done
  | invite id accepted =>
      rw [Enrollment.step] at done
      split at done
      · next name there =>
          cases accepted with
          | true =>
              cases done
              exact named.invite there careful
          | false =>
              cases done
              apply named.close
              intro other node way
              rw [there] at way
              cases way
      · cases done
  | persist id hash nowMs written =>
      rw [Enrollment.step] at done
      split at done
      · next name there =>
          split at done
          · cases done
            exact named.persist there hash nowMs
          · cases done
            apply named.close
            intro other node way
            rw [there] at way
            cases way
      · cases done
  | register id =>
      rw [Enrollment.step] at done
      split at done
      · next name node there =>
          cases done
          exact named.register there
      · cases done
  | drop id =>
      rw [Enrollment.step] at done
      split at done
      · next name there =>
          cases done
          apply named.close
          intro other node way
          rw [there] at way
          cases way
      · cases done
  | restart =>
      cases done
      exact named.restart

/-- At the start there are no names. -/
theorem new : Named .new :=
  ⟨fun _ _ _ _ held => (by cases held), fun _ _ held => (by cases held),
    fun _ inside => (List.not_mem_nil inside).elim, .nil, fun _ _ held => (by cases held),
    fun _ _ _ way => (by cases way), fun _ _ way => (by cases way),
    fun _ _ _ _ way => (by cases way)⟩

/-- Names of different nodes are different. -/
theorem unique (named : Named server) : UniqueNames server := by
  constructor
  · refine List.Nodup.map_on (fun one held two held' same => ?_) (server.nodes.distinct.of_map _)
    have ids := named.distinct one.1 two.1 one.2 two.2 (Table.get_eq_some.mpr held)
      (Table.get_eq_some.mpr held') same
    exact List.inj_on_of_nodup_map server.nodes.distinct held held' ids
  · refine List.Nodup.map_on (fun one inside two inside' same => ?_) (named.ids.of_map _)
    obtain ⟨rec, held, called⟩ := named.stored one inside
    obtain ⟨twin, held', called'⟩ := named.stored two inside'
    have ids := named.distinct one.1 two.1 rec twin held held'
      (called.trans (same.trans called'.symm))
    exact List.inj_on_of_nodup_map named.ids inside inside' ids

end Named

/-- **Names.** When an invite is consumed only for a name that nobody has or is about to take, no
two nodes have the same name, across restarts. -/
theorem node_names_unique {events : List EnrollEvent} {server : Enrollment}
    (run : Run CarefulEnroll .new events server) : UniqueNames server := by
  have named : Named server :=
    run.invariant Named (fun _ _ _ named step => named.step step) .new
  exact named.unique

/-- A second request for a name comes after the first and a restart. -/
def enrolledOnce : List EnrollEvent :=
  [.check 0 "alice", .invite 0 true, .persist 0 "h0" 0 true, .register 0, .restart,
    .check 1 "alice", .check 2 "bob", .invite 2 true, .persist 2 "h2" 0 true, .register 2]

/-- Two nodes enroll with different names. -/
theorem node_names_unique_once : ∃ server, Run CarefulEnroll .new enrolledOnce server ∧
    (server.nodes.entries.map fun entry => entry.2.name) = ["bob", "alice"] ∧
    UniqueNames server := by
  have done : (follow Enrollment.step Enrollment.careful .new enrolledOnce).any fun server =>
      (server.nodes.entries.map fun entry => entry.2.name) = ["bob", "alice"] := by
    decide
  obtain ⟨server, run, names⟩ := run_of_follow done
  exact ⟨server, run, of_decide_eq_true names, node_names_unique run⟩

/-- Two requests for a name check it before either is in the registry. -/
def enrolledTwice : List EnrollEvent :=
  [.check 0 "alice", .check 1 "alice", .invite 0 true, .invite 1 true,
    .persist 0 "h0" 0 true, .persist 1 "h1" 0 true, .register 0, .register 1]

/-- Two nodes check the same name before either takes it. -/
theorem node_names_clash : ∃ server, Run EnrollStep .new enrolledTwice server ∧
    (server.nodes.entries.map fun entry => entry.2.name) = ["alice", "alice"] ∧
    (server.registry.map fun entry => entry.2.name) = ["alice", "alice"] ∧
    ¬ UniqueNames server := by
  have done : (follow Enrollment.step (fun _ _ => true) .new enrolledTwice).any fun server =>
      (server.nodes.entries.map fun entry => entry.2.name) = ["alice", "alice"] ∧
        (server.registry.map fun entry => entry.2.name) = ["alice", "alice"] := by
    decide
  obtain ⟨server, run, found⟩ := run_of_follow done
  obtain ⟨nodes, registry⟩ := of_decide_eq_true found
  refine ⟨server, run.mono fun _ _ _ step => step.1, nodes, registry, fun unique => ?_⟩
  have distinct := unique.1
  rw [nodes] at distinct
  revert distinct
  decide

end LolCrawler.Server
