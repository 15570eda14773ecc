import LolCrawler.Server.Leaderboard

/-! # Tokens

A node is given a token when it is enrolled, and sends it with every request. The server keeps the
hash only: the store with the record of the node, the registry in a map from hashes to nodes that a
restart loads from the store. As long as no new token has the hash of a stored node, a token is
taken for a node exactly if the node was stored with its hash and is not on its way to the registry,
and what a client was told is true from then on (`tokens_name_their_node`).

The hash is a parameter: any function on texts.
-/

namespace LolCrawler

/-! ## Names in the registry -/

namespace Registry

/-- A node that enrolls has its name, and the others have theirs. -/
theorem nameOf_enrollRuntime (registry : Registry) (id other : Nat) (name : String) :
    (registry.enrollRuntime id name).nameOf other =
      if other = id then name else registry.nameOf other := by
  unfold nameOf enrollRuntime
  rw [List.find?_append]
  by_cases same : other = id
  · have gone : (registry.filter fun entry => entry.1 ≠ id).find?
        (fun entry => entry.1 = other) = none := by
      rw [List.find?_eq_none]
      intro entry kept here
      obtain ⟨-, away⟩ := List.mem_filter.mp kept
      exact of_decide_eq_true away ((of_decide_eq_true here).trans same)
    rw [gone, if_pos same, same]
    simp
  · have kept : (registry.filter fun entry => entry.1 ≠ id).find? (fun entry => entry.1 = other) =
        registry.find? fun entry => entry.1 = other := by
      rw [List.find?_filter]
      congr 1
      funext entry
      by_cases here : entry.1 = other
      · simp [here, same]
      · simp [here]
    have last : ¬ id = other := fun equal => same equal.symm
    rw [kept, if_neg same]
    simp [last]

end Registry

namespace Server

open Foundation

/-- A node that is not loaded keeps its name. -/
theorem nameOf_load_other {nodes : List (Nat × NodeRec)} {id : Nat}
    (absent : id ∉ nodes.map Prod.fst) (registry : Registry) :
    (nodes.foldl (fun registry node => registry.enrollRuntime node.1 node.2.name) registry).nameOf
      id = registry.nameOf id := by
  induction nodes generalizing registry with
  | nil => rfl
  | cons node nodes ih =>
      rw [List.map_cons, List.mem_cons, not_or] at absent
      rw [List.foldl_cons, ih absent.2, Registry.nameOf_enrollRuntime, if_neg absent.1]

/-- A node that is loaded has its name. -/
theorem nameOf_load {nodes : List (Nat × NodeRec)} {id : Nat} {rec : NodeRec}
    (distinct : (nodes.map Prod.fst).Nodup) (inside : (id, rec) ∈ nodes) (registry : Registry) :
    (nodes.foldl (fun registry node => registry.enrollRuntime node.1 node.2.name) registry).nameOf
      id = rec.name := by
  induction nodes generalizing registry with
  | nil => cases inside
  | cons node nodes ih =>
      rw [List.map_cons, List.nodup_cons] at distinct
      rw [List.foldl_cons]
      cases inside with
      | head =>
          rw [nameOf_load_other distinct.1, Registry.nameOf_enrollRuntime, if_pos rfl]
      | tail _ inside => exact ih distinct.2 inside _

/-! ## The model -/

/-- What the client is told, and the node that it is. -/
structure EnrollResponse where
  node : Nat
  token : String
  name : String
deriving DecidableEq

structure Auth where
  enrollment : Enrollment
  /-- `by_token_hash` -/
  byTokenHash : Table String Nat
  /-- The token that a request has made up. -/
  tokens : Nat → Option String
  /-- A history. -/
  responses : List EnrollResponse

inductive AuthEvent where
  | enroll (event : EnrollEvent)
  /-- The token is made up, and the node written to the store. -/
  | persist (id : Nat) (token : String) (nowMs : Nat) (written : Bool)
deriving DecidableEq

/-- `by_token_hash` at startup. -/
def loadTokens (nodes : List (Nat × NodeRec)) : Table String Nat :=
  nodes.foldl (fun hashes node => hashes.insert node.2.tokenSha256Hex node.1) .empty

namespace Auth

def new : Auth := ⟨.new, .empty, fun _ => none, []⟩

variable (tokenHashHex : String → String)

/-- The node of a token. -/
def auth (server : Auth) (token : String) : Option Nat :=
  server.byTokenHash.get (tokenHashHex token)

def step (server : Auth) : AuthEvent → Option Auth
  | .persist id token nowMs written =>
      (server.enrollment.step (.persist id (tokenHashHex token) nowMs written)).map
        fun enrollment => { server with
          enrollment := enrollment
          tokens := Function.update server.tokens id (some token) }
  | .enroll (.persist ..) => none
  | .enroll (.register id) =>
      match server.enrollment.calls.get id, server.tokens id with
      | some ⟨name, .persisted node⟩, some token =>
          (server.enrollment.step (.register id)).map fun enrollment => { server with
            enrollment := enrollment
            byTokenHash := server.byTokenHash.insert (tokenHashHex token) node
            responses := ⟨node, token, name⟩ :: server.responses }
      | _, _ => none
  | .enroll .restart =>
      (server.enrollment.step .restart).map fun enrollment => { server with
        enrollment := enrollment
        byTokenHash := loadTokens enrollment.nodes.entries
        tokens := fun _ => none }
  | .enroll event =>
      (server.enrollment.step event).map fun enrollment => { server with enrollment := enrollment }

/-- A new token does not have the hash of a stored node. -/
def fresh (server : Auth) : AuthEvent → Bool
  | .persist _ token _ _ => server.enrollment.nodes.entries.all fun entry =>
      entry.2.tokenSha256Hex ≠ tokenHashHex token
  | _ => true

end Auth

def AuthStep (tokenHashHex : String → String) (server : Auth) (event : AuthEvent) (next : Auth) :
    Prop :=
  server.step tokenHashHex event = some next ∧ server.fresh tokenHashHex event

/-- The node is in the store, and its request on its way to the registry. -/
def Enrollment.OnWay (server : Enrollment) (node : Nat) : Prop :=
  ∃ call name, server.calls.get call = some ⟨name, .persisted node⟩

/-! ## What a step does -/

section Moves

variable {tokenHashHex : String → String} {server next : Auth}

/-- Nothing changes for the nodes that are stored. -/
structure Auth.Stays (server next : Auth) : Prop where
  nodes : next.enrollment.nodes = server.enrollment.nodes
  nextNodeId : next.enrollment.nextNodeId = server.enrollment.nextNodeId
  registry : next.enrollment.registry = server.enrollment.registry
  hashes : next.byTokenHash = server.byTokenHash
  responses : next.responses = server.responses
  calls : ∀ call name node, next.enrollment.calls.get call = some ⟨name, .persisted node⟩ ↔
    server.enrollment.calls.get call = some ⟨name, .persisted node⟩
  tokens : ∀ call name node, server.enrollment.calls.get call = some ⟨name, .persisted node⟩ →
    next.tokens call = server.tokens call

variable (tokenHashHex) (server next) in
inductive AuthMove : Prop where
  | stays (same : server.Stays next)
  | persists (id : Nat) (token name : String) (nowMs : Nat)
      (there : server.enrollment.calls.get id = some ⟨name, .invited⟩)
      (fresh : ∀ node rec, server.enrollment.nodes.get node = some rec →
        rec.tokenSha256Hex ≠ tokenHashHex token)
      (done : next = { server with
        enrollment := (server.enrollment.nodeAdd name (tokenHashHex token) nowMs).2.put id
          ⟨name, .persisted (server.enrollment.nextNodeId.getD 1)⟩
        tokens := Function.update server.tokens id (some token) })
  | registers (id node : Nat) (token name : String)
      (there : server.enrollment.calls.get id = some ⟨name, .persisted node⟩)
      (own : server.tokens id = some token)
      (done : next = { server with
        enrollment := { server.enrollment with
          registry := server.enrollment.registry.enrollRuntime node name }.close id
        byTokenHash := server.byTokenHash.insert (tokenHashHex token) node
        responses := ⟨node, token, name⟩ :: server.responses })
  | restarts (done : next = { server with
      enrollment := { server.enrollment with
        registry := Enrollment.load server.enrollment.nodes.entries
        calls := .empty }
      byTokenHash := loadTokens server.enrollment.nodes.entries
      tokens := fun _ => none })

/-- A call that goes on has persisted what was persisted. -/
theorem put_persisted {enrollment : Enrollment} {id : Nat} {call : Enrolling}
    (idle : ∀ name node, enrollment.calls.get id ≠ some ⟨name, .persisted node⟩)
    (waits : ∀ node, call.phase ≠ .persisted node) (other : Nat) (name : String) (node : Nat) :
    (enrollment.put id call).calls.get other = some ⟨name, .persisted node⟩ ↔
      enrollment.calls.get other = some ⟨name, .persisted node⟩ := by
  rw [Enrollment.put, Table.get_insert]
  split
  · next same =>
      constructor
      · intro told
        rw [Option.some.inj told] at waits
        exact (waits node rfl).elim
      · intro there
        rw [same] at there
        exact (idle name node there).elim
  · exact Iff.rfl

/-- A call that ends has persisted what was persisted. -/
theorem close_persisted {enrollment : Enrollment} {id : Nat}
    (idle : ∀ name node, enrollment.calls.get id ≠ some ⟨name, .persisted node⟩)
    (other : Nat) (name : String) (node : Nat) :
    (enrollment.close id).calls.get other = some ⟨name, .persisted node⟩ ↔
      enrollment.calls.get other = some ⟨name, .persisted node⟩ := by
  rw [Enrollment.close, Table.get_remove]
  split
  · next same =>
      constructor
      · intro told
        cases told
      · intro there
        rw [same] at there
        exact (idle name node there).elim
  · exact Iff.rfl

/-- Each step moves the server in one of these ways. -/
theorem AuthStep.move {event : AuthEvent} (step : AuthStep tokenHashHex server event next) :
    AuthMove tokenHashHex server next := by
  obtain ⟨done, fresh⟩ := step
  cases event with
  | persist id token nowMs written =>
      obtain ⟨enrollment, made, rfl⟩ := Option.map_eq_some_iff.mp done
      rw [Enrollment.step] at made
      split at made
      · next name there =>
          have idle : ∀ name node,
              server.enrollment.calls.get id ≠ some ⟨name, .persisted node⟩ := by simp [there]
          split at made
          · cases made
            have new : ∀ node rec, server.enrollment.nodes.get node = some rec →
                rec.tokenSha256Hex ≠ tokenHashHex token := by
              intro node rec held
              have apart := List.all_eq_true.mp fresh (node, rec) (Table.get_eq_some.mp held)
              exact of_decide_eq_true apart
            exact .persists id token name nowMs there new rfl
          · cases made
            have tokens : ∀ call name node,
                server.enrollment.calls.get call = some ⟨name, .persisted node⟩ →
                  Function.update server.tokens id (some token) call = server.tokens call := by
              intro call name node way
              apply Function.update_of_ne
              intro same
              rw [same] at way
              exact idle name node way
            exact .stays ⟨rfl, rfl, rfl, rfl, rfl, close_persisted idle, tokens⟩
      · cases made
  | enroll event =>
      cases event with
      | persist id hash nowMs written => cases done
      | check id name =>
          obtain ⟨enrollment, made, rfl⟩ := Option.map_eq_some_iff.mp done
          rw [Enrollment.step] at made
          split at made
          · next free =>
              split at made
              · cases made
                exact .stays ⟨rfl, rfl, rfl, rfl, rfl, fun _ _ _ => Iff.rfl, fun _ _ _ _ => rfl⟩
              · cases made
                exact .stays ⟨rfl, rfl, rfl, rfl, rfl,
                  put_persisted (by simp [free]) (by simp), fun _ _ _ _ => rfl⟩
          · cases made
      | invite id accepted =>
          obtain ⟨enrollment, made, rfl⟩ := Option.map_eq_some_iff.mp done
          rw [Enrollment.step] at made
          split at made
          · next name there =>
              cases accepted with
              | true =>
                  cases made
                  exact .stays ⟨rfl, rfl, rfl, rfl, rfl,
                    put_persisted (by simp [there]) (by simp), fun _ _ _ _ => rfl⟩
              | false =>
                  cases made
                  exact .stays ⟨rfl, rfl, rfl, rfl, rfl, close_persisted (by simp [there]),
                    fun _ _ _ _ => rfl⟩
          · cases made
      | register id =>
          rw [Auth.step] at done
          split at done
          · next name node token there own =>
              obtain ⟨enrollment, made, rfl⟩ := Option.map_eq_some_iff.mp done
              rw [Enrollment.step, there] at made
              cases made
              exact .registers id node token name there own rfl
          · cases done
      | drop id =>
          obtain ⟨enrollment, made, rfl⟩ := Option.map_eq_some_iff.mp done
          rw [Enrollment.step] at made
          split at made
          · next name there =>
              cases made
              exact .stays ⟨rfl, rfl, rfl, rfl, rfl, close_persisted (by simp [there]),
                fun _ _ _ _ => rfl⟩
          · cases made
      | restart =>
          cases done
          exact .restarts rfl

/-! ## What is known of a node -/

/-- A stored node is on its way, with the token of its request, or the registry knows the hash of
its token and its name. Those who were told a token are different nodes, and not on their way. -/
structure Auth.Sound (tokenHashHex : String → String) (server : Auth) : Prop where
  below : ∀ node rec, server.enrollment.nodes.get node = some rec →
    node < server.enrollment.nextNodeId.getD 1
  distinct : ∀ node other rec twin, server.enrollment.nodes.get node = some rec →
    server.enrollment.nodes.get other = some twin → rec.tokenSha256Hex = twin.tokenSha256Hex →
      node = other
  hashes : ∀ hash node, server.byTokenHash.get hash = some node ↔
    ∃ rec, server.enrollment.nodes.get node = some rec ∧ rec.tokenSha256Hex = hash ∧
      ¬ server.enrollment.OnWay node
  way : ∀ call name node, server.enrollment.calls.get call = some ⟨name, .persisted node⟩ →
    ∃ rec token, server.enrollment.nodes.get node = some rec ∧ rec.name = name ∧
      server.tokens call = some token ∧ rec.tokenSha256Hex = tokenHashHex token
  alone : ∀ call other name title node,
    server.enrollment.calls.get call = some ⟨name, .persisted node⟩ →
      server.enrollment.calls.get other = some ⟨title, .persisted node⟩ → call = other
  names : ∀ node rec, server.enrollment.nodes.get node = some rec →
    ¬ server.enrollment.OnWay node → server.enrollment.registry.nameOf node = rec.name
  told : ∀ response ∈ server.responses, ∃ rec,
    server.enrollment.nodes.get response.node = some rec ∧ rec.name = response.name ∧
      rec.tokenSha256Hex = tokenHashHex response.token ∧
        ¬ server.enrollment.OnWay response.node
  apart : (server.responses.map EnrollResponse.node).Nodup

/-- Who is on the way is told by the calls. -/
theorem Auth.Stays.onWay (same : server.Stays next) (node : Nat) :
    next.enrollment.OnWay node ↔ server.enrollment.OnWay node :=
  exists_congr fun call => exists_congr fun name => same.calls call name node

/-- What a load of the hashes finds. -/
theorem get_loadTokens {nodes : Table Nat NodeRec}
    (distinct : ∀ node other rec twin, nodes.get node = some rec → nodes.get other = some twin →
      rec.tokenSha256Hex = twin.tokenSha256Hex → node = other) (hash : String) (node : Nat) :
    (loadTokens nodes.entries).get hash = some node ↔
      ∃ rec, nodes.get node = some rec ∧ rec.tokenSha256Hex = hash := by
  have own : ∀ entry ∈ nodes.entries, ((nodes.entries.find? fun other =>
      other.2.tokenSha256Hex = entry.2.tokenSha256Hex).map Prod.fst) = some entry.1 := by
    intro entry inside
    cases found : nodes.entries.find? fun other =>
        other.2.tokenSha256Hex = entry.2.tokenSha256Hex with
    | none => exact absurd (decide_eq_true rfl) (List.find?_eq_none.mp found entry inside)
    | some other =>
        have there := List.mem_of_find?_eq_some found
        have hashed := List.find?_some found
        exact congrArg some (distinct other.1 entry.1 other.2 entry.2 (Table.get_eq_some.mpr there)
          (Table.get_eq_some.mpr inside) (of_decide_eq_true hashed))
  have loaded := Table.get_foldl_entries (fun hash => (nodes.entries.find? fun other =>
    other.2.tokenSha256Hex = hash).map Prod.fst)
      (List.forall_mem_map.mpr own : ∀ entry ∈ nodes.entries.map fun entry =>
        (entry.2.tokenSha256Hex, entry.1), _) .empty hash
  rw [List.foldl_map] at loaded
  rw [loadTokens, loaded]
  by_cases kept : hash ∈ (nodes.entries.map fun entry =>
      (entry.2.tokenSha256Hex, entry.1)).map Prod.fst
  · rw [if_pos kept]
    rw [List.map_map] at kept
    obtain ⟨entry, inside, rfl⟩ := List.mem_map.mp kept
    have held := Table.get_eq_some.mpr inside
    rw [Function.comp_apply, own entry inside, Option.some.injEq]
    constructor
    · intro same
      rw [← same]
      exact ⟨entry.2, held, rfl⟩
    · intro stored
      obtain ⟨rec, held', hashed⟩ := stored
      exact distinct entry.1 node entry.2 rec held held' hashed.symm
  · rw [if_neg kept]
    constructor
    · intro found
      cases found
    · intro stored
      obtain ⟨rec, held, hashed⟩ := stored
      rw [List.map_map] at kept
      exact (kept (List.mem_map.mpr ⟨_, Table.get_eq_some.mp held, hashed⟩)).elim

namespace Auth.Sound

/-- At the start no token is held. -/
theorem new : Auth.Sound tokenHashHex .new where
  below _ _ held := by cases held
  distinct _ _ _ _ held := by cases held
  hashes hash node := by
    constructor
    · intro found
      cases found
    · intro stored
      obtain ⟨rec, held, -⟩ := stored
      cases held
  way _ _ _ there := by cases there
  alone _ _ _ _ _ there := by cases there
  names _ _ held := by cases held
  told _ inside := by cases inside
  apart := .nil

/-- Tokens stay sound while nothing is enrolled. -/
theorem stays (sound : server.Sound tokenHashHex) (same : server.Stays next) :
    next.Sound tokenHashHex where
  below := by
    rw [same.nodes, same.nextNodeId]
    exact sound.below
  distinct := by
    rw [same.nodes]
    exact sound.distinct
  hashes hash node := by
    rw [same.hashes, same.nodes, same.onWay]
    exact sound.hashes hash node
  way call name node there := by
    have before := (same.calls call name node).mp there
    rw [same.nodes, same.tokens call name node before]
    exact sound.way call name node before
  alone call other name title node one two :=
    sound.alone call other name title node ((same.calls ..).mp one) ((same.calls ..).mp two)
  names node rec held off := by
    rw [same.registry]
    rw [same.nodes] at held
    rw [same.onWay] at off
    exact sound.names node rec held off
  told response inside := by
    rw [same.responses] at inside
    rw [same.nodes, same.onWay]
    exact sound.told response inside
  apart := by
    rw [same.responses]
    exact sound.apart

/-- The node of a request is stored. -/
theorem persists (sound : server.Sound tokenHashHex) {id nowMs : Nat} {token name : String}
    (there : server.enrollment.calls.get id = some ⟨name, .invited⟩)
    (fresh : ∀ node rec, server.enrollment.nodes.get node = some rec →
      rec.tokenSha256Hex ≠ tokenHashHex token) :
    Auth.Sound tokenHashHex { server with
      enrollment := (server.enrollment.nodeAdd name (tokenHashHex token) nowMs).2.put id
        ⟨name, .persisted (server.enrollment.nextNodeId.getD 1)⟩
      tokens := Function.update server.tokens id (some token) } := by
  have new : ∀ {node rec}, server.enrollment.nodes.get node = some rec →
      node ≠ server.enrollment.nextNodeId.getD 1 :=
    fun held => Nat.ne_of_lt (sound.below _ _ held)
  have kept : ∀ {node}, node ≠ server.enrollment.nextNodeId.getD 1 →
      ((server.enrollment.nodeAdd name (tokenHashHex token) nowMs).2).nodes.get node =
        server.enrollment.nodes.get node := fun other => Table.get_insert_of_ne _ _ other
  have here : ((server.enrollment.nodeAdd name (tokenHashHex token) nowMs).2).nodes.get
      (server.enrollment.nextNodeId.getD 1) = some ⟨name, tokenHashHex token, nowMs⟩ :=
    Table.get_insert_self ..
  -- The node is on its way, and it is the only new one.
  have calls : ∀ {call title node}, (((server.enrollment.nodeAdd name (tokenHashHex token)
      nowMs).2).put id ⟨name, .persisted (server.enrollment.nextNodeId.getD 1)⟩).calls.get call =
        some ⟨title, .persisted node⟩ →
          (call = id ∧ title = name ∧ node = server.enrollment.nextNodeId.getD 1) ∨
            (call ≠ id ∧ server.enrollment.calls.get call = some ⟨title, .persisted node⟩) := by
    intro call title node way
    rw [Enrollment.put, Table.get_insert] at way
    split at way
    · next same =>
        cases way
        exact .inl ⟨same, rfl, rfl⟩
    · next other => exact .inr ⟨other, way⟩
  have onWay : ∀ node, Enrollment.OnWay (((server.enrollment.nodeAdd name (tokenHashHex token)
      nowMs).2).put id ⟨name, .persisted (server.enrollment.nextNodeId.getD 1)⟩) node ↔
        node = server.enrollment.nextNodeId.getD 1 ∨ server.enrollment.OnWay node := by
    intro node
    constructor
    · intro going
      obtain ⟨call, title, way⟩ := going
      cases calls way with
      | inl own => exact .inl own.2.2
      | inr before => exact .inr ⟨call, title, before.2⟩
    · intro going
      cases going with
      | inl same =>
          rw [same]
          exact ⟨id, name, Table.get_insert_self ..⟩
      | inr before =>
          obtain ⟨call, title, way⟩ := before
          have other : call ≠ id := by
            intro same
            rw [same, there] at way
            cases way
          exact ⟨call, title, (Table.get_insert_of_ne _ _ other).trans way⟩
  constructor
  case below =>
    intro node rec held
    by_cases same : node = server.enrollment.nextNodeId.getD 1
    · rw [same]
      exact Nat.lt_succ_self _
    · exact Nat.lt_succ_of_lt (sound.below node rec ((kept same).symm.trans held))
  case distinct =>
    intro node other rec twin held held' hashed
    by_cases same : node = server.enrollment.nextNodeId.getD 1
    · by_cases same' : other = server.enrollment.nextNodeId.getD 1
      · rw [same, same']
      · rw [same] at held
        cases here.symm.trans held
        exact (fresh other twin ((kept same').symm.trans held') hashed.symm).elim
    · by_cases same' : other = server.enrollment.nextNodeId.getD 1
      · rw [same'] at held'
        cases here.symm.trans held'
        exact (fresh node rec ((kept same).symm.trans held) hashed).elim
      · exact sound.distinct node other rec twin ((kept same).symm.trans held)
          ((kept same').symm.trans held') hashed
  case hashes =>
    intro hash node
    rw [sound.hashes hash node]
    constructor
    · intro stored
      obtain ⟨rec, held, hashed, off⟩ := stored
      have other := new held
      exact ⟨rec, (kept other).trans held, hashed,
        fun going => ((onWay node).mp going).elim other off⟩
    · intro stored
      obtain ⟨rec, held, hashed, off⟩ := stored
      rw [onWay, not_or] at off
      exact ⟨rec, (kept off.1).symm.trans held, hashed, off.2⟩
  case way =>
    intro call title node way
    cases calls way with
    | inl own =>
        obtain ⟨rfl, rfl, rfl⟩ := own
        exact ⟨_, token, here, rfl, Function.update_self .., rfl⟩
    | inr before =>
        obtain ⟨rec, own, held, called, had, hashed⟩ := sound.way call title node before.2
        exact ⟨rec, own, (kept (new held)).trans held, called,
          (Function.update_of_ne before.1 ..).trans had, hashed⟩
  case alone =>
    intro call other title title' node one two
    cases calls one with
    | inl own =>
        cases calls two with
        | inl own' => rw [own.1, own'.1]
        | inr before =>
            obtain ⟨rec, -, held, -⟩ := sound.way other title' node before.2
            exact (new held own.2.2).elim
    | inr before =>
        cases calls two with
        | inl own =>
            obtain ⟨rec, -, held, -⟩ := sound.way call title node before.2
            exact (new held own.2.2).elim
        | inr before' => exact sound.alone call other title title' node before.2 before'.2
  case names =>
    intro node rec held off
    rw [onWay, not_or] at off
    exact sound.names node rec ((kept off.1).symm.trans held) off.2
  case told =>
    intro response inside
    obtain ⟨rec, held, called, hashed, off⟩ := sound.told response inside
    have other := new held
    exact ⟨rec, (kept other).trans held, called, hashed,
      fun going => ((onWay response.node).mp going).elim other off⟩
  case apart => exact sound.apart

/-- The registry learns of a node, and the client of its token. -/
theorem registers (sound : server.Sound tokenHashHex) {id node : Nat} {token name : String}
    (there : server.enrollment.calls.get id = some ⟨name, .persisted node⟩)
    (own : server.tokens id = some token) :
    Auth.Sound tokenHashHex { server with
      enrollment := { server.enrollment with
        registry := server.enrollment.registry.enrollRuntime node name }.close id
      byTokenHash := server.byTokenHash.insert (tokenHashHex token) node
      responses := ⟨node, token, name⟩ :: server.responses } := by
  obtain ⟨rec, mine, held, called, had, hashed⟩ := sound.way id name node there
  cases own.symm.trans had
  have calls : ∀ {call title other}, (server.enrollment.calls.remove id).get call =
      some ⟨title, .persisted other⟩ →
        call ≠ id ∧ server.enrollment.calls.get call = some ⟨title, .persisted other⟩ := by
    intro call title other way
    rw [Table.get_remove] at way
    split at way
    · cases way
    · next away => exact ⟨away, way⟩
  have onWay : ∀ other, Enrollment.OnWay ({ server.enrollment with
      registry := server.enrollment.registry.enrollRuntime node name }.close id) other ↔
        other ≠ node ∧ server.enrollment.OnWay other := by
    intro other
    constructor
    · intro going
      obtain ⟨call, title, way⟩ := going
      have before := calls way
      refine ⟨fun same => ?_, call, title, before.2⟩
      rw [same] at before
      exact before.1 (sound.alone call id title name node before.2 there)
    · intro going
      obtain ⟨away, call, title, way⟩ := going
      refine ⟨call, title, ?_⟩
      have different : call ≠ id := by
        intro same
        rw [same, there] at way
        cases way
        exact away rfl
      exact (Table.get_remove ..).trans ((if_neg different).trans way)
  constructor
  case below => exact sound.below
  case distinct => exact sound.distinct
  case hashes =>
    intro hash other
    rw [Table.get_insert]
    by_cases same : hash = tokenHashHex token
    · rw [if_pos same, Option.some.injEq]
      constructor
      · intro equal
        rw [← equal]
        exact ⟨rec, held, hashed.trans same.symm, fun going => ((onWay node).mp going).1 rfl⟩
      · intro stored
        obtain ⟨twin, held', hashed', off⟩ := stored
        exact sound.distinct node other rec twin held held'
          (hashed.trans (same.symm.trans hashed'.symm))
    · rw [if_neg same, sound.hashes hash other]
      constructor
      · intro stored
        obtain ⟨twin, held', hashed', off⟩ := stored
        exact ⟨twin, held', hashed', fun going => off ((onWay other).mp going).2⟩
      · intro stored
        obtain ⟨twin, held', hashed', off⟩ := stored
        refine ⟨twin, held', hashed', fun going => off ((onWay other).mpr ⟨fun equal => ?_, going⟩)⟩
        have again : server.enrollment.nodes.get node = some twin := equal ▸ held'
        cases held.symm.trans again
        exact same (hashed'.symm.trans hashed)
  case way =>
    intro call title other way
    exact sound.way call title other (calls way).2
  case alone =>
    intro call other title title' node' one two
    exact sound.alone call other title title' node' (calls one).2 (calls two).2
  case names =>
    intro other twin held' off
    refine (Registry.nameOf_enrollRuntime ..).trans ?_
    by_cases same : other = node
    · have again : server.enrollment.nodes.get node = some twin := same ▸ held'
      cases held.symm.trans again
      rw [if_pos same, called]
    · rw [if_neg same]
      exact sound.names other twin held' fun going => off ((onWay other).mpr ⟨same, going⟩)
  case told =>
    intro response inside
    cases inside with
    | head => exact ⟨rec, held, called, hashed, fun going => ((onWay node).mp going).1 rfl⟩
    | tail _ inside =>
        obtain ⟨twin, held', called', hashed', off⟩ := sound.told response inside
        exact ⟨twin, held', called', hashed', fun going => off ((onWay response.node).mp going).2⟩
  case apart =>
    refine List.nodup_cons.mpr ⟨fun inside => ?_, sound.apart⟩
    obtain ⟨response, before, same⟩ := List.mem_map.mp inside
    obtain ⟨-, -, -, -, off⟩ := sound.told response before
    rw [same] at off
    exact off ⟨id, name, there⟩

/-- The registry is loaded from the store. -/
theorem restarts (sound : server.Sound tokenHashHex) :
    Auth.Sound tokenHashHex { server with
      enrollment := { server.enrollment with
        registry := Enrollment.load server.enrollment.nodes.entries
        calls := .empty }
      byTokenHash := loadTokens server.enrollment.nodes.entries
      tokens := fun _ => none } := by
  have off : ∀ node, ¬ Enrollment.OnWay { server.enrollment with
      registry := Enrollment.load server.enrollment.nodes.entries
      calls := .empty } node := by
    intro node going
    obtain ⟨call, name, way⟩ := going
    cases way
  constructor
  case below => exact sound.below
  case distinct => exact sound.distinct
  case hashes =>
    intro hash node
    rw [get_loadTokens sound.distinct]
    exact exists_congr fun rec => and_congr_right fun _ => (and_iff_left (off node)).symm
  case way =>
    intro call name node there
    cases there
  case alone =>
    intro call other name title node there
    cases there
  case names =>
    intro node rec held _
    exact nameOf_load server.enrollment.nodes.distinct (Table.get_eq_some.mp held) []
  case told =>
    intro response inside
    obtain ⟨rec, held, called, hashed, -⟩ := sound.told response inside
    exact ⟨rec, held, called, hashed, off response.node⟩
  case apart => exact sound.apart

/-- **One step** keeps the tokens sound. -/
theorem step {event : AuthEvent} (sound : server.Sound tokenHashHex)
    (step : AuthStep tokenHashHex server event next) : next.Sound tokenHashHex := by
  cases step.move with
  | stays same => exact sound.stays same
  | persists id token name nowMs there fresh done =>
      rw [done]
      exact sound.persists there fresh
  | registers id node token name there own done =>
      rw [done]
      exact sound.registers there own
  | restarts done =>
      rw [done]
      exact sound.restarts

end Auth.Sound

/-- What was told stays told. -/
theorem AuthStep.responses {event : AuthEvent} (step : AuthStep tokenHashHex server event next)
    {response : EnrollResponse} (told : response ∈ server.responses) :
    response ∈ next.responses := by
  cases step.move with
  | stays same =>
      rw [same.responses]
      exact told
  | persists id token name nowMs there fresh done =>
      rw [done]
      exact told
  | registers id node token name there own done =>
      rw [done]
      exact List.mem_cons_of_mem _ told
  | restarts done =>
      rw [done]
      exact told

end Moves

/-- **Tokens.** As long as no new token has the hash of a stored node, a token is taken for a node
exactly if the node was stored with its hash and is not on its way to the registry; the clients that
were told a token are different nodes; and from then on, over all restarts and enrollments, each is
taken for its own node, under the name it has chosen. -/
theorem tokens_name_their_node {tokenHashHex : String → String} {before after : List AuthEvent}
    {server next : Auth} (past : Run (AuthStep tokenHashHex) .new before server)
    (run : Run (AuthStep tokenHashHex) server after next) :
    (∀ token node, next.auth tokenHashHex token = some node ↔
      ∃ rec, next.enrollment.nodes.get node = some rec ∧
        rec.tokenSha256Hex = tokenHashHex token ∧ ¬ next.enrollment.OnWay node) ∧
    (next.responses.map EnrollResponse.node).Nodup ∧
    ∀ response ∈ server.responses, next.auth tokenHashHex response.token = some response.node ∧
      next.enrollment.registry.nameOf response.node = response.name := by
  have sound : next.Sound tokenHashHex :=
    (past.append run).invariant (Auth.Sound tokenHashHex)
      (fun _ _ _ sound step => sound.step step) .new
  refine ⟨fun token => sound.hashes _, sound.apart, fun response told => ?_⟩
  have later : response ∈ next.responses :=
    run.invariant (fun server => response ∈ server.responses)
      (fun _ _ _ told step => step.responses told) told
  obtain ⟨rec, held, called, hashed, off⟩ := sound.told response later
  exact ⟨(sound.hashes _ _).mpr ⟨rec, held, hashed, off⟩,
    (sound.names _ rec held off).trans called⟩

/-- A token of 32 bytes, all zero. -/
def zeroToken : String := "0000000000000000000000000000000000000000000000000000000000000000"

def onesToken : String := "1111111111111111111111111111111111111111111111111111111111111111"

/-- The hashes of these two. -/
def hashOfTwo (token : String) : String :=
  if token = zeroToken then "60e05bd1b195af2f94112fa7197a5c88289058840ce7c6df9693756bc6250f55"
  else if token = onesToken then "3138bb9bc78df27c473ecfd1410f7bd45ebac1f59cf3ff9cfe4db77aab7aedd3"
  else token

def aliceEnrolled : List AuthEvent :=
  [.enroll (.check 0 "alice"), .enroll (.invite 0 true), .persist 0 zeroToken 0 true,
    .enroll (.register 0)]

/-- The next node is on its way after a restart. -/
def bobStored : List AuthEvent :=
  [.enroll .restart, .enroll (.check 1 "bob"), .enroll (.invite 1 true),
    .persist 1 onesToken 0 true]

/-- The token of a node names it after a restart, while another node enrolls. -/
theorem tokens_name_their_node_restarted : ∃ server next,
    Run (AuthStep hashOfTwo) .new aliceEnrolled server ∧
      Run (AuthStep hashOfTwo) server bobStored next ∧
        next.auth hashOfTwo zeroToken = some 1 ∧
          next.enrollment.registry.nameOf 1 = "alice" := by
  have done : (follow (Auth.step hashOfTwo) (Auth.fresh hashOfTwo) .new aliceEnrolled).any
      fun server => server.responses = [⟨1, zeroToken, "alice"⟩] &&
        (follow (Auth.step hashOfTwo) (Auth.fresh hashOfTwo) server bobStored).any
          fun _ => true := by
    decide +kernel
  obtain ⟨server, past, found⟩ := run_of_follow done
  rw [Bool.and_eq_true] at found
  obtain ⟨next, run, -⟩ := run_of_follow found.2
  have told : (⟨1, zeroToken, "alice"⟩ : EnrollResponse) ∈ server.responses := by
    rw [of_decide_eq_true found.1]
    exact List.mem_singleton_self _
  have known := (tokens_name_their_node past run).2.2 _ told
  exact ⟨server, next, past, run, known.1, known.2⟩

end Server

end LolCrawler
