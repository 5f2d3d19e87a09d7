import ChilopodCaster.SyncDelivery
import ChilopodCaster.SyncerSession

/-!
# A syncer and its node

A syncer and the node that it talks to, with the bytes under way between them. Messages are queued,
and bytes arrive on either side, in any order and in any number at once. As long as the connection
lasts and the node accepts the messages, each message is executed once, in the order of the queue,
and leaves the queue when its reply comes.

## Main definitions

* `Link`, `Link.step` — the two sides, and what happens to them
* `Link.Phase` — where an exchange is

## Main results

* `Link.Sound.step` — what a step keeps
* `exactly_once` — messages are executed once and in order
-/

namespace ChilopodCaster

namespace SyncLink

open Ntripcli Ntripsrv Pieces
open Ntripcli.Client (Sent Receives ReplyFits syncContent syncReplyLines)

variable {F W G : Type}

/-! ### Links -/

/-- What the two sides are set up with. -/
structure Peers (W G : Type) where
  caster : Ntripsrv.Caster W G
  config : Ntripsrv.Config
  threads : Bool
  /-- the rank of the session of the syncer -/
  session : ℕ
  host : CString
  port : BitVec 16
  authorization : CString

/-- The two sides, and the bytes under way. -/
structure Link (F W G : Type) where
  client : Client F
  server : Server W G
  toServer : List Byte
  toClient : List Byte

/-- What happens. -/
inductive Step (F : Type)
  /-- that many bytes, if there are, reach the node, whose clock shows a date -/
  | request (date : CString) (n : ℕ)
  /-- that many bytes, if there are, reach the syncer -/
  | reply (env : Env F) (n : ℕ)
  /-- a message is queued -/
  | queue (packet : Packet)

/-- The bytes of a message. -/
def content (m : MimeContent) : List Byte := m.packet.data

/-- The requests for some messages. -/
def Peers.requests (P : Peers W G) (items : List MimeContent) : List Byte :=
  items.flatMap fun m => syncText P.host P.port P.authorization (content m)

/-- The messages that a callback of the syncer has sent: those in flight, unless they already
were. -/
def sent (s s' : Client F) : List MimeContent :=
  if s'.task.inFlight = s.task.inFlight then [] else s'.task.inFlight

/-- The replies that a callback of the node has written. -/
def written (date : CString) (s s' : Server W G) : List Byte :=
  (s'.replies.drop s.replies.length).flatMap (replyText date)

namespace Link

/-- A callback of the syncer is over. -/
def sends (P : Peers W G) (l : Link F W G) (client : Client F) : Link F W G :=
  { l with
    client := client
    toServer := l.toServer ++ P.requests (sent l.client client) }

/-- One step. -/
def step (P : Peers W G) (l : Link F W G) : Step F → Option (Link F W G)
  | .request date n =>
    match Ntripsrv.feed P.caster P.config l.server (l.toServer.take n) with
    | .error _ => none
    | .ok server => some { l with
        server := server
        toServer := l.toServer.drop n
        toClient := l.toClient ++ written date l.server server }
  | .reply env n =>
    (Client.feed P.threads env P.session l.client (l.toClient.take n)).map
      ({ l with toClient := l.toClient.drop n }.sends P)
  | .queue packet => (l.client.taskQueue packet).map (l.sends P)

/-- Steps one after the other. -/
def run (P : Peers W G) (l : Link F W G) (steps : List (Step F)) : Option (Link F W G) :=
  steps.foldlM (step P) l

end Link

/-! ### The node -/

variable {P : Peers W G}

/-- What is needed of the two sides. -/
structure Peers.Ok (P : Peers W G) : Prop where
  peers : SyncPeers P.config P.host P.port P.authorization
  /-- a message is answered as `api_sync_json` answers one that it could execute -/
  accepts : ∀ w item, SyncItem P.caster P.config item →
    (syncAnswer P.caster P.authorization w item).status = 200 ∧
      (syncAnswer P.caster P.authorization w item).m = some syncContent

/-- A part of a request reaches the node. -/
theorem exists_feed_request (hP : P.Ok) {item : List Byte} (hitem : SyncItem P.caster P.config item)
    {s server : Server W G} (hs : Idle s) (hkeep : s.st.connectionKeepalive = true)
    {p x z : List Byte} (hserver : Ntripsrv.feed P.caster P.config s p = .ok server)
    (htext : p ++ (x ++ z) = syncText P.host P.port P.authorization item) (hne : x ++ z ≠ []) :
    ∃ server', Ntripsrv.feed P.caster P.config server x = .ok server' ∧
      (z ≠ [] → Ntripsrv.feed P.caster P.config s (p ++ x) = .ok server' ∧
        server'.replies = server.replies ∧ Synced P.caster P.authorization s [] server') ∧
      (z = [] → Idle server' ∧ server'.st.connectionKeepalive = true ∧
        Synced P.caster P.authorization s [item] server' ∧ server.replies = s.replies) := by
  obtain ⟨s', hreads, hidle, hsynced, hkeep'⟩ := readsTo_sync hP.peers hitem hs hkeep
  obtain ⟨server₁, hserver₁, hpart⟩ := hreads.feed_part hne htext
  obtain rfl := Except.ok.inj (hserver.symm.trans hserver₁)
  have hreplies : server.replies = s.replies := hpart.replies.trans (List.append_nil _)
  have hpieces : [p, x].foldlM (Ntripsrv.feed P.caster P.config) s =
      Ntripsrv.feed P.caster P.config s [p, x].flatten :=
    (hreads.pieces_eq (feed_idle hidle)).2 z (by simpa [List.append_assoc] using htext)
  have hfeed : Ntripsrv.feed P.caster P.config server x =
      Ntripsrv.feed P.caster P.config s (p ++ x) := by
    rw [List.foldlM_cons, hserver] at hpieces
    have hone : [x].foldlM (Ntripsrv.feed P.caster P.config) server =
        Ntripsrv.feed P.caster P.config server x := by
      rw [List.foldlM_cons]
      exact bind_pure _
    have htwo : [p, x].flatten = p ++ x := by simp
    rw [← hone, ← htwo]
    exact hpieces
  by_cases hz : z = []
  · subst hz
    have hwhole := hreads.feed_whole []
    rw [List.flatten_singleton, List.append_nil, ← htext, List.append_nil,
      feed_idle hidle] at hwhole
    exact ⟨s', hfeed.trans hwhole, fun h => absurd rfl h, fun _ =>
      ⟨hidle, hkeep', hsynced, hreplies⟩⟩
  · obtain ⟨server', hserver', hinv⟩ := hreads.feed_part (p := p ++ x) hz (by
      rw [List.append_assoc, htext])
    refine ⟨server', hfeed.trans hserver', fun _ => ⟨hserver', ?_, hinv⟩, fun h => absurd h hz⟩
    rw [hreplies, hinv.replies]
    exact List.append_nil _

/-- The reply to a message. -/
theorem replyText_syncReply (hP : P.Ok) {item : List Byte} (hitem : SyncItem P.caster P.config item)
    (w : W) (date : CString) :
    replyText date (syncReply (syncAnswer P.caster P.authorization w item)) =
      (writeLines (syncReplyLines date)).flatten := by
  obtain ⟨hstatus, hm⟩ := hP.accepts w item hitem
  have hmsg : httpMessage 200 = cstr "OK" := by decide
  rw [syncReply, hstatus, hm, hmsg, replyText]
  exact List.append_nil _

/-! ### Exchanges -/

/-- What is left of the messages that were queued: all of them, if together they have room in the
queue. -/
def Kept (max : ℕ) (queued kept : List (List Byte)) : Prop :=
  kept.Sublist queued ∧ ((queued.map List.length).sum ≤ max → kept = queued)

/-- Where an exchange is. Some messages have been executed, and some are left. -/
inductive Phase (P : Peers W G) (limit : ℕ) (s₀ : Server W G) (executed : List (List Byte)) :
    Link F W G → List MimeContent → Prop
  /-- a part of a request has arrived, or there is none -/
  | request {client : Client F} {server s : Server W G} {toServer p : List Byte}
      (hclient : Sent P.session client) (hs : Idle s) (hkeep : s.st.connectionKeepalive = true)
      (hsynced : Synced P.caster P.authorization s₀ executed s)
      (hserver : Ntripsrv.feed P.caster P.config s p = .ok server)
      (hpart : Synced P.caster P.authorization s₀ executed server)
      (htext : p ++ toServer = P.requests (client.task.mimeq.take 1))
      (hleft : client.task.mimeq ≠ [] → toServer ≠ []) :
      Phase P limit s₀ executed ⟨client, server, toServer, []⟩ client.task.mimeq
  /-- a part of a reply has arrived -/
  | reply {client : Client F} {server : Server W G} {toClient : List Byte} {date : CString}
      (hdate : Clean date ∧ date.length + 64 < limit)
      (hclient : Receives P.session date client toClient) (hne : toClient ≠ [])
      (hidle : Idle server) (hkeep : server.st.connectionKeepalive = true)
      (hsynced : Synced P.caster P.authorization s₀ executed server)
      (hunacked : client.task.inFlight.map content <:+ executed) :
      Phase P limit s₀ executed ⟨client, server, [], toClient⟩ client.task.unsent

/-- What is true of a link after messages were queued. -/
structure Sound (P : Peers W G) (limit max : ℕ) (s₀ : Server W G)
    (queued : List (List Byte)) (l : Link F W G) : Prop where
  items : ∀ m ∈ l.client.task.mimeq, SyncItem P.caster P.config (content m)
  queueMaxSize : l.client.task.queueMaxSize = max
  phase : ∃ executed todo, Phase P limit s₀ executed l todo ∧
    Kept max queued (executed ++ todo.map content)

/-- What is needed of a step: a date and a header limit that go together, and a message that the
node can take. -/
def Step.Ok (P : Peers W G) (limit : ℕ) : Step F → Prop
  | .request date _ => Clean date ∧ date.length + 64 < limit
  | .reply env _ => limit ≤ env.config.httpHeaderMaxSize
  | .queue packet => SyncItem P.caster P.config packet.data

/-- The message that a step queues. -/
def Step.queued : Step F → List (List Byte)
  | .request _ _ => []
  | .reply _ _ => []
  | .queue packet => [packet.data]

variable {limit max : ℕ} {s₀ : Server W G} {executed queued : List (List Byte)} {l l' : Link F W G}
  {todo : List MimeContent}

theorem written_of_eq {s s' : Server W G} (date : CString) (h : s'.replies = s.replies) :
    written date s s' = [] := by
  rw [written, h, List.drop_length]
  rfl

theorem sent_of_eq {s s' : Client F}
    (h : s'.task.inFlight = s.task.inFlight ∨ s'.task.inFlight = []) : sent s s' = [] := by
  rw [sent]
  split
  · rfl
  · next hne => exact h.resolve_left hne

theorem Sent.inFlight {s : Client F} {i : ℕ} (h : Sent i s) :
    s.task.inFlight = s.task.mimeq.take 1 := by
  rw [ClientTask.inFlight, h.pending]
  split
  · next hnil =>
    rw [hnil]
    rfl
  · rfl

/-- A message that is sent for the first time has not been in flight. -/
theorem sent_of_finished {s s' : Client F} {i : ℕ} (hqueue : s.task.QueueOk) (h : Sent i s')
    (hmimeq : s'.task.mimeq = s.task.unsent) : sent s s' = s'.task.mimeq.take 1 := by
  rw [sent, Sent.inFlight h]
  split
  · next heq =>
    rw [heq]
    cases hrest : s'.task.mimeq with
    | nil =>
      rw [← heq, hrest]
      rfl
    | cons m rest =>
      rw [hrest] at heq
      have hin : m ∈ s.task.inFlight := by
        rw [← heq]
        exact List.mem_cons_self
      have hun : m ∈ s.task.unsent := by
        rw [← hmimeq, hrest]
        exact List.mem_cons_self
      have hordered := hqueue.ordered
      rw [← ClientTask.inFlight_append_unsent] at hordered
      exact absurd ((List.pairwise_append.mp hordered).2.2 m hin m hun) (Nat.lt_irrefl _)
  · rfl

theorem requests_cons_ne_nil {m : MimeContent} (items : List MimeContent) (h : content m ≠ []) :
    P.requests (m :: items) ≠ [] := by
  intro hnil
  rw [Peers.requests, List.flatMap_cons, List.append_eq_nil_iff, syncText,
    List.append_eq_nil_iff] at hnil
  exact h hnil.1.2

theorem mimeSize_eq (items : List MimeContent) :
    mimeSize items = ((items.map content).map List.length).sum := by
  rw [List.map_map]
  rfl

/-- A message is queued, and those before it are dropped if it has no room. -/
theorem Kept.queue {task : ClientTask F} (h : Kept max queued (executed ++ todo.map content))
    (hqueue : task.QueueOk) (hmax : task.queueMaxSize = max) {packet : Packet}
    {dropped : List MimeContent} (hdropped : dropped.Sublist todo)
    (hsize : mimeSize task.mimeq ≤ ((executed ++ todo.map content).map List.length).sum) :
    Kept max (queued ++ [packet.data]) (executed ++
      ((if task.Overflows ⟨task.allocated, packet⟩ then dropped else todo) ++
        [(⟨task.allocated, packet⟩ : MimeContent)]).map content) := by
  obtain ⟨hsub, hall⟩ := h
  rw [List.map_append, ← List.append_assoc]
  constructor
  · refine List.Sublist.append (List.Sublist.trans ?_ hsub) (List.Sublist.refl _)
    refine List.Sublist.append_left (List.Sublist.map _ ?_) _
    split
    · exact hdropped
    · exact List.Sublist.refl _
  · intro hroom
    rw [List.map_append, List.sum_append] at hroom
    have hroom' : (queued.map List.length).sum + packet.data.length ≤ max := by simpa using hroom
    have hkept := hall (Nat.le_of_add_right_le hroom')
    have hfits : ¬ task.Overflows ⟨task.allocated, packet⟩ := by
      show ¬ (packet.data.length + task.queueSize > task.queueMaxSize)
      rw [hqueue.queueSize, hmax]
      rw [hkept] at hsize
      omega
    rw [if_neg hfits, hkept]
    rfl

/-- **Bytes reach the node.** -/
theorem Phase.exists_request (hP : P.Ok) (hitems : ∀ m ∈ l.client.task.mimeq,
      SyncItem P.caster P.config (content m)) (h : Phase P limit s₀ executed l todo)
    {date : CString} (hdate : Clean date ∧ date.length + 64 < limit) (n : ℕ) :
    ∃ l' executed' todo', l.step P (.request date n) = some l' ∧ l'.client = l.client ∧
      Phase P limit s₀ executed' l' todo' ∧
      executed' ++ todo'.map content = executed ++ todo.map content := by
  cases h with
  | @request client server s toServer p hclient hs hkeep hsynced hserver hsame htext hleft =>
    have hsplit : toServer.take n ++ toServer.drop n = toServer := List.take_append_drop n toServer
    cases hmimeq : client.task.mimeq with
    | nil =>
      -- nothing is under way
      rw [hmimeq] at htext
      obtain ⟨rfl, rfl⟩ := List.append_eq_nil_iff.mp htext
      obtain rfl := Except.ok.inj ((feed_idle hs).symm.trans hserver)
      refine ⟨⟨client, s, [], []⟩, executed, [], ?_, rfl, ?_, rfl⟩
      · rw [Link.step, List.take_nil, hserver]
        dsimp only
        rw [written_of_eq date rfl, List.drop_nil]
        rfl
      · rw [← hmimeq]
        exact .request hclient hs hkeep hsynced hserver hsynced (by rw [hmimeq]; rfl)
          fun hne => absurd hmimeq hne
    | cons m rest =>
      have hne : client.task.mimeq ≠ [] := by simp [hmimeq]
      have hitem := hitems m (hmimeq ▸ List.mem_cons_self)
      have hone : P.requests (client.task.mimeq.take 1) =
          syncText P.host P.port P.authorization (content m) := by
        rw [hmimeq]
        exact List.append_nil _
      obtain ⟨server', hfeed, hpart, hwhole⟩ := exists_feed_request hP hitem hs hkeep hserver
        (x := toServer.take n) (z := toServer.drop n) (by rw [hsplit, htext, hone])
        (by rw [hsplit]; exact hleft hne)
      by_cases hz : toServer.drop n = []
      · -- the request is whole, and it is answered
        obtain ⟨hidle, hkeep', hone', hreplies⟩ := hwhole hz
        have hwritten : written date server server' =
            (writeLines (syncReplyLines date)).flatten := by
          rw [written, hone'.replies, ← hreplies, List.drop_left]
          exact (List.append_nil _).trans (replyText_syncReply hP hitem s.w date)
        have hinFlight : client.task.inFlight = [m] := by
          rw [Sent.inFlight hclient, hmimeq]
          rfl
        have hunsent : client.task.unsent = rest := by
          rw [ClientTask.unsent, hclient.pending, if_neg hne, hmimeq]
          rfl
        refine ⟨⟨client, server', [], (writeLines (syncReplyLines date)).flatten⟩,
          executed ++ [content m], client.task.unsent, ?_, rfl,
          .reply hdate (hclient.receives hne date) ?_ hidle hkeep' (hsynced.append hone') ?_, ?_⟩
        · rw [Link.step, hfeed]
          dsimp only
          rw [hz, hwritten]
          rfl
        · simp [syncReplyLines, writeLines, crlf]
        · rw [hinFlight]
          exact List.suffix_append _ _
        · rw [hunsent, List.append_assoc]
          rfl
      · obtain ⟨hserver', hreplies, hnone⟩ := hpart hz
        have hsame' := hsynced.append hnone
        rw [List.append_nil] at hsame'
        refine ⟨⟨client, server', toServer.drop n, []⟩, executed, client.task.mimeq, ?_, rfl,
          .request hclient hs hkeep hsynced hserver' hsame' ?_ fun _ => hz, by rw [hmimeq]⟩
        · rw [Link.step, hfeed]
          dsimp only
          rw [written_of_eq date hreplies]
          rfl
        · rw [List.append_assoc, hsplit, htext]
  | @reply client server toClient date' hdate' hclient hne hidle hkeep hsynced hunacked =>
    refine ⟨⟨client, server, [], toClient⟩, executed, client.task.unsent, ?_, rfl,
      .reply hdate' hclient hne hidle hkeep hsynced hunacked, rfl⟩
    rw [Link.step, List.take_nil, feed_idle hidle]
    dsimp only
    rw [written_of_eq date rfl, List.append_nil, List.drop_nil]

/-- **Bytes reach the syncer.** -/
theorem Phase.exists_reply (hitems : ∀ m ∈ l.client.task.mimeq,
      SyncItem P.caster P.config (content m)) (h : Phase P limit s₀ executed l todo) {env : Env F}
    (henv : limit ≤ env.config.httpHeaderMaxSize) (n : ℕ) :
    ∃ l', l.step P (.reply env n) = some l' ∧
      l'.client.task.queueMaxSize = l.client.task.queueMaxSize ∧
      l'.client.task.mimeq.Sublist l.client.task.mimeq ∧ Phase P limit s₀ executed l' todo := by
  cases h with
  | @request client server s toServer p hclient hs hkeep hsynced hserver hsame htext hleft =>
    refine ⟨⟨client, server, toServer, []⟩, ?_, rfl, List.Sublist.refl _,
      .request hclient hs hkeep hsynced hserver hsame htext hleft⟩
    rw [Link.step, List.take_nil, Client.feed_nil hclient.ready, Option.map_some, Link.sends,
      sent_of_eq (.inl rfl), List.drop_nil]
    exact congrArg some (congrArg (Link.mk client server · []) (List.append_nil _))
  | @reply client server toClient date hdate hclient hne hidle hkeep hsynced hunacked =>
    have hsplit : toClient.take n ++ toClient.drop n = toClient := List.take_append_drop n toClient
    have hfits : ReplyFits env date := ⟨hdate.1, hdate.2.trans_le henv⟩
    have hqueue := (hclient.taskQueue (.new [])).2.2
    rw [← hsplit] at hclient
    obtain ⟨client', hfeed, hafter⟩ := @Receives.feed _ _ _ _ P.threads _ _ _ hclient hfits
    by_cases hz : toClient.drop n = []
    · -- the reply is over
      obtain ⟨hsent, hmimeq⟩ := hafter.finished hz
      have hnext := sent_of_finished hqueue hsent hmimeq
      refine ⟨⟨client', server, P.requests (client'.task.mimeq.take 1), []⟩, ?_,
        hafter.queueMaxSize, hmimeq ▸ List.drop_sublist _ _, ?_⟩
      · rw [Link.step, hfeed, Option.map_some, Link.sends, hnext, hz]
        rfl
      · rw [← hmimeq]
        refine .request (p := []) hsent hidle hkeep hsynced (feed_idle hidle) hsynced rfl
          fun hne => ?_
        obtain ⟨m, rest, hcons⟩ := List.exists_cons_of_ne_nil hne
        have hmem : m ∈ client.task.mimeq :=
          (hmimeq ▸ List.drop_sublist _ _ : client'.task.mimeq.Sublist _).subset
            (hcons ▸ List.mem_cons_self)
        rw [hcons]
        exact requests_cons_ne_nil [] (hitems m hmem).nonempty
    · obtain ⟨hrest, hunsent, hinFlight⟩ := hafter.unfinished hz
      refine ⟨⟨client', server, [], toClient.drop n⟩, ?_, hafter.queueMaxSize, ?_, ?_⟩
      · rw [Link.step, hfeed, Option.map_some, Link.sends, sent_of_eq hinFlight]
        rfl
      · rw [← ClientTask.inFlight_append_unsent, hunsent,
          ← ClientTask.inFlight_append_unsent client.task]
        refine List.Sublist.append_right ?_ _
        rcases hinFlight with hin | hin
        · rw [hin]
        · rw [hin]
          exact List.nil_sublist _
      · rw [← hunsent]
        refine .reply hdate hrest hz hidle hkeep hsynced ?_
        rcases hinFlight with hin | hin
        · rw [hin]
          exact hunacked
        · rw [hin]
          exact List.nil_suffix

/-- **A message is queued.** -/
theorem Phase.exists_queue (h : Phase P limit s₀ executed l todo) {packet : Packet}
    (hitem : SyncItem P.caster P.config packet.data)
    (hkept : Kept l.client.task.queueMaxSize queued (executed ++ todo.map content)) :
    ∃ l' todo', l.step P (.queue packet) = some l' ∧
      l'.client.task.queueMaxSize = l.client.task.queueMaxSize ∧
      l'.client.task.mimeq = (l.client.task.queued packet).mimeq ∧
      Phase P limit s₀ executed l' todo' ∧
      Kept l.client.task.queueMaxSize (queued ++ [packet.data])
        (executed ++ todo'.map content) := by
  cases h with
  | @request client server s toServer p hclient hs hkeep hsynced hserver hsame htext hleft =>
    obtain ⟨client', hqueue, hsent, hmimeq, hmax⟩ := hclient.exists_taskQueue packet
    have hnew : client'.task.mimeq ≠ [] := by
      rw [hmimeq]
      exact Client.queued_ne_nil _ _
    have hkept' : Kept client.task.queueMaxSize (queued ++ [packet.data])
        (executed ++ client'.task.mimeq.map content) := by
      rw [hmimeq]
      refine hkept.queue hclient.queue rfl (List.take_sublist _ _) ?_
      rw [mimeSize_eq, List.map_append, List.sum_append]
      exact Nat.le_add_left _ _
    have hsends : p ++ (toServer ++ P.requests (sent client client')) =
          P.requests (client'.task.mimeq.take 1) ∧
        toServer ++ P.requests (sent client client') ≠ [] := by
      by_cases hnil : client.task.mimeq = []
      · -- it is sent at once
        rw [hnil] at htext
        obtain ⟨rfl, rfl⟩ := List.append_eq_nil_iff.mp htext
        obtain ⟨m, rest, hcons⟩ := List.exists_cons_of_ne_nil hnew
        have hfirst : client'.task.mimeq.take 1 = [m] := by rw [hcons]; rfl
        have hdata : content m ≠ [] := by
          have hmem : m ∈ client'.task.mimeq := hcons ▸ List.mem_cons_self
          rw [hmimeq] at hmem
          rcases List.mem_append.mp hmem with hmem | hmem
          · exact absurd ((ClientTask.kept_sublist _ packet).subset hmem) (by simp [hnil])
          · rw [List.mem_singleton.mp hmem]
            exact hitem.nonempty
        have hsent' : sent client client' = [m] := by
          rw [sent, Sent.inFlight hsent, Sent.inFlight hclient, hfirst, hnil]
          exact if_neg (List.cons_ne_nil _ _)
        rw [hsent', hfirst]
        exact ⟨rfl, requests_cons_ne_nil [] hdata⟩
      · -- the one before waits for its reply
        have hpending : client.task.pending = 1 := hclient.pending.trans (if_neg hnil)
        have hfirst : client'.task.mimeq.take 1 = client.task.mimeq.take 1 := by
          have hsame := hclient.queue.inFlight_queued packet
          rw [Sent.inFlight hclient, ClientTask.inFlight] at hsame
          rw [hmimeq, ← hsame, ← hpending]
          rfl
        have hsent' : sent client client' = [] := by
          refine sent_of_eq (.inl ?_)
          rw [Sent.inFlight hsent, Sent.inFlight hclient, hfirst]
        have hnone : P.requests [] = [] := rfl
        rw [hsent', hfirst, hnone, List.append_nil]
        exact ⟨htext, hleft hnil⟩
    refine ⟨⟨client', server, toServer ++ P.requests (sent client client'), []⟩,
      client'.task.mimeq, ?_, hmax, hmimeq, .request hsent hs hkeep hsynced hserver hsame
        hsends.1 fun _ => hsends.2, hkept'⟩
    rw [Link.step, hqueue]
    rfl
  | @reply client server toClient date hdate hclient hne hidle hkeep hsynced hunacked =>
    obtain ⟨hqueue, hnext, hok⟩ := hclient.taskQueue packet
    refine ⟨⟨client.setTask (client.task.queued packet), server, [], toClient⟩,
      (client.task.queued packet).unsent, ?_, rfl, rfl,
      .reply hdate hnext hne hidle hkeep hsynced ?_, ?_⟩
    · rw [Link.step, hqueue, Option.map_some, Link.sends,
        sent_of_eq (.inl (hok.inFlight_queued packet))]
      rfl
    · exact (hok.inFlight_queued packet).symm ▸ hunacked
    · rw [hok.unsent_queued]
      refine hkept.queue hok rfl (List.nil_sublist _) ?_
      obtain ⟨before, hbefore⟩ := hunacked
      have hsplit : executed ++ client.task.unsent.map content =
          before ++ client.task.mimeq.map content := by
        rw [← hbefore, List.append_assoc, ← List.map_append, ClientTask.inFlight_append_unsent]
      rw [mimeSize_eq, hsplit, List.map_append, List.sum_append]
      exact Nat.le_add_left _ _

/-- **A step.** -/
theorem Sound.step (hP : P.Ok) (h : Sound P limit max s₀ queued l) {a : Step F}
    (ha : a.Ok P limit) :
    ∃ l', l.step P a = some l' ∧ Sound P limit max s₀ (queued ++ a.queued) l' := by
  obtain ⟨hitems, hmax, executed, todo, hphase, hkept⟩ := h
  cases a with
  | request date n =>
    obtain ⟨l', executed', todo', hstep, hclient, hphase', hsame⟩ :=
      Phase.exists_request hP hitems hphase ha n
    refine ⟨l', hstep, hclient ▸ hitems, hclient ▸ hmax, executed', todo', hphase', ?_⟩
    rw [hsame, Step.queued, List.append_nil]
    exact hkept
  | reply env n =>
    obtain ⟨l', hstep, hmax', hsub, hphase'⟩ := Phase.exists_reply hitems hphase ha n
    refine ⟨l', hstep, fun m hm => hitems m (hsub.subset hm), hmax'.trans hmax, executed, todo,
      hphase', ?_⟩
    rw [Step.queued, List.append_nil]
    exact hkept
  | queue packet =>
    subst hmax
    obtain ⟨l', todo', hstep, hmax', hmimeq, hphase', hkept'⟩ :=
      Phase.exists_queue hphase ha hkept
    refine ⟨l', hstep, fun m hm => ?_, hmax', executed, todo', hphase', hkept'⟩
    rw [hmimeq] at hm
    rcases List.mem_append.mp hm with hm | hm
    · exact hitems m ((ClientTask.kept_sublist _ packet).subset hm)
    · rw [List.mem_singleton.mp hm]
      exact ha

/-- Any steps. -/
theorem Sound.run (hP : P.Ok) (h : Sound P limit max s₀ queued l) {steps : List (Step F)}
    (hsteps : ∀ a ∈ steps, a.Ok P limit) :
    ∃ l', l.run P steps = some l' ∧
      Sound P limit max s₀ (queued ++ steps.flatMap Step.queued) l' := by
  induction steps generalizing l queued with
  | nil => exact ⟨l, rfl, by rwa [List.flatMap_nil, List.append_nil]⟩
  | cons a steps ih =>
    obtain ⟨l₁, hstep, h₁⟩ := h.step hP (hsteps a List.mem_cons_self)
    obtain ⟨l', hrun, h'⟩ := ih h₁ fun b hb => hsteps b (List.mem_cons_of_mem _ hb)
    refine ⟨l', ?_, by rwa [List.flatMap_cons, ← List.append_assoc]⟩
    rw [Link.run, List.foldlM_cons, hstep]
    exact hrun

/-- The syncer has just connected. -/
structure Link.Start (P : Peers W G) (l : Link F W G) : Prop where
  client : Sent P.session l.client
  server : Idle l.server
  connectionKeepalive : l.server.st.connectionKeepalive = true
  toServer : l.toServer = P.requests (l.client.task.mimeq.take 1)
  toClient : l.toClient = []
  items : ∀ m ∈ l.client.task.mimeq, SyncItem P.caster P.config (content m)

theorem Link.Start.sound (h : l.Start P) (limit : ℕ) :
    Sound P limit l.client.task.queueMaxSize l.server (l.client.task.mimeq.map content) l where
  items := h.items
  queueMaxSize := rfl
  phase := by
    have hself : Synced P.caster P.authorization l.server [] l.server :=
      ⟨rfl, (List.append_nil _).symm, rfl⟩
    obtain ⟨client, server, toServer, toClient⟩ := l
    obtain rfl : toClient = [] := h.toClient
    refine ⟨[], client.task.mimeq, .request h.client h.server h.connectionKeepalive hself
      (feed_idle h.server) hself h.toServer fun hne => ?_, List.Sublist.refl _, fun _ => rfl⟩
    obtain ⟨m, rest, hcons⟩ := List.exists_cons_of_ne_nil hne
    have hmem : m ∈ client.task.mimeq := hcons ▸ List.mem_cons_self
    rw [show toServer = _ from h.toServer, hcons]
    exact requests_cons_ne_nil [] (h.items m hmem).nonempty

/-- **Each message is executed once**, in the order in which the messages were queued, however they
are queued while others are under way, and however requests and replies are cut. None is lost, if
together they have room in the queue. A message leaves the queue when it has been executed, and at
most one that has been executed is still there. When nothing is under way, nothing is left. -/
theorem exactly_once (hP : P.Ok) (h : l.Start P) {steps : List (Step F)}
    (hsteps : ∀ a ∈ steps, a.Ok P limit) :
    ∃ l' executed unacked todo, l.run P steps = some l' ∧
      Synced P.caster P.authorization l.server executed l'.server ∧
      unacked <:+ executed ∧ unacked.length ≤ 1 ∧
      l'.client.task.mimeq.map content = unacked ++ todo ∧
      Kept l.client.task.queueMaxSize
        (l.client.task.mimeq.map content ++ steps.flatMap Step.queued) (executed ++ todo) ∧
      (l'.toServer = [] → l'.toClient = [] → unacked ++ todo = []) := by
  obtain ⟨l', hrun, -, -, executed, todo, hphase, hkept⟩ := (h.sound limit).run hP hsteps
  cases hphase with
  | @request client server s toServer p hclient hs hkeep hsynced hserver hsame htext hleft =>
    refine ⟨_, executed, [], client.task.mimeq.map content, hrun, hsame, List.nil_suffix,
      Nat.zero_le _, rfl, hkept, fun hnone _ => ?_⟩
    by_contra hne
    exact hleft (fun hnil => hne (by rw [hnil]; rfl)) hnone
  | @reply client server toClient date hdate hclient hne hidle hkeep hsynced hunacked =>
    refine ⟨_, executed, client.task.inFlight.map content, client.task.unsent.map content, hrun,
      hsynced, hunacked, ?_, ?_, hkept, fun _ hnone => absurd hnone hne⟩
    · rw [List.length_map, ClientTask.inFlight, List.length_take]
      exact (Nat.min_le_left _ _).trans hclient.pending_le
    · rw [← List.map_append, ClientTask.inFlight_append_unsent]

/-- The surroundings of a syncer. -/
def smallEnv : Env Unit where
  config := ⟨4096, 4096, 3600⟩
  time := 0
  timeOfDay := ⟨0, 0⟩
  scanFloat := fun _ => none
  text := fun _ => []
  checkserial := .new (cstr "[]")
  full := .new (cstr "\x7b\x7d")
  sendSubscribers := fun _ => false
  pullable := true

/-- A node that accepts all messages, and writes them down. -/
def smallPeers : Peers (List CString) Unit where
  caster := { syncCaster with
    contentCb := fun _ w req => ⟨200, some syncContent, w ++ [req.json.getD []]⟩ }
  config := { smallConfig with syncerAuth := some (cstr "token") }
  threads := false
  session := 0
  host := cstr "node"
  port := 2101
  authorization := cstr "token"

/-- A syncer that has connected. -/
def smallSyncer : Client Unit :=
  ([(smallEnv, .start), (smallEnv, .event 0 true)].foldlM (Client.step false)
    (.new .syncer 10 0 1000)).getD (.new .syncer 10 0 1000)

/-- Its link. -/
def smallLink : Link Unit (List CString) Unit where
  client := smallSyncer
  server := .accepted smallPeer [] (.new 509 HashTable.zero_lt_509)
  toServer := smallPeers.requests (smallSyncer.task.mimeq.take 1)
  toClient := []

/-- A message is queued while the request before it is under way, and a reply is cut. -/
theorem exactly_once_smallLink :
    ∃ (l' : Link Unit (List CString) Unit) (executed todo : List CString),
      smallLink.run smallPeers [.request (cstr "now") 100, .queue (.new (cstr "[]")),
        .request (cstr "now") 1000, .reply smallEnv 30, .reply smallEnv 1000] = some l' ∧
      executed ++ todo = [cstr "\x7b\x7d", cstr "[]"] := by
  have hmimeq : smallSyncer.task.mimeq = [⟨0, .new (cstr "\x7b\x7d")⟩] := rfl
  have hitem : ∀ item ∈ [cstr "\x7b\x7d", cstr "[]"],
      SyncItem smallPeers.caster smallPeers.config item := by
    have hlen : ∀ item ∈ [cstr "\x7b\x7d", cstr "[]"],
        item ≠ [] ∧ item.length ≤ 4000000 := by decide
    exact fun item hitem => ⟨(hlen item hitem).1, ⟨(hlen item hitem).2,
      (hlen item hitem).2.trans_lt (by decide)⟩, rfl⟩
  have hP : smallPeers.Ok :=
    ⟨⟨by decide, by decide, by decide, rfl, by decide, by decide⟩,
      fun _ _ _ => ⟨rfl, rfl⟩⟩
  have hlive : Client.Live 0 smallSyncer := by
    have hnext : smallSyncer.next = 1 := rfl
    have howner : smallSyncer.task.owner = .syncer := rfl
    refine ⟨⟨hnext ▸ Nat.one_pos, ?_, ⟨false, rfl⟩, rfl, rfl, rfl, fun j hj hne => ?_⟩,
      fun mountpoint persistent hown => ?_, fun new args hown => ?_⟩
    · exact show SessionState.waitHttpStatus ≠ .ntripEnd by decide
    · omega
    · rw [howner] at hown
      contradiction
    · rw [howner] at hown
      contradiction
  have hqueue : smallSyncer.task.QueueOk := by
    refine ⟨rfl, rfl, Nat.le_refl 1, ?_, ?_⟩
    · rw [hmimeq]
      exact List.pairwise_singleton _ _
    · rw [hmimeq]
      intro m hm
      rw [List.mem_singleton.mp hm]
      exact Nat.one_pos
  have hclient : Sent 0 smallSyncer :=
    ⟨⟨⟨hlive, ⟨rfl, rfl, rfl, rfl⟩⟩, hqueue, rfl, rfl, rfl⟩, rfl, rfl⟩
  have hstart : smallLink.Start smallPeers := by
    refine ⟨hclient, ⟨⟨rfl, rfl, rfl, rfl⟩, rfl⟩, rfl, rfl, rfl, fun m hm => ?_⟩
    rw [List.mem_singleton.mp (show m ∈ [_] from hm)]
    exact hitem _ List.mem_cons_self
  have hdate : Clean (cstr "now") ∧ (cstr "now").length + 64 < 4096 := by decide
  obtain ⟨l', executed, unacked, todo, hrun, -, -, -, -, hkept, -⟩ :=
    @exactly_once Unit _ _ smallPeers 4096 smallLink hP hstart [.request (cstr "now") 100,
      .queue (.new (cstr "[]")), .request (cstr "now") 1000, .reply smallEnv 30,
      .reply smallEnv 1000] (by
    intro a ha
    simp only [List.mem_cons, List.not_mem_nil, or_false] at ha
    rcases ha with rfl | rfl | rfl | rfl | rfl
    · exact hdate
    · exact hitem (cstr "[]") (by simp)
    · exact hdate
    · exact Nat.le_refl 4096
    · exact Nat.le_refl 4096)
  exact ⟨l', executed, todo, hrun, hkept.2 (by decide)⟩

end SyncLink

end ChilopodCaster
