import Mathlib.Data.Finset.Basic
import Reframe.Lib.PyText
import Reframe.Lib.Reconcile
import Reframe.Memory.Graph

/-! The messages of the conversation that goes on, and how they are merged with those that are
stored already. -/
namespace AgentFlow

open PyText ReframeMemory

/-- `datetime.isoformat` and `datetime.fromisoformat` for times in UTC, in microseconds, where a Z
stands for the offset. -/
class Timestamps where
  isoformat : ℤ → String
  /-- `_parse_timestamp` -/
  parseTimestamp : String → Option ℤ
  parse_isoformat : ∀ t, parseTimestamp (isoformat t) = some t

structure ConversationHistoryMessage where
  createdAt : String
  updatedAt : String
  readAt : String
  role : String
  content : Text
  deriving DecidableEq

structure ConversationHistory where
  id : String
  name : String
  createdAt : String
  updatedAt : String
  readAt : String
  messages : List ConversationHistoryMessage
  deriving DecidableEq

structure LiveConversationMessage where
  conversationId : String
  role : String
  content : Text
  capturedAt : String
  deriving DecidableEq

structure LiveConversationContext where
  messages : List LiveConversationMessage := []
  activeHumanReplies : Finset String := ∅
  lastCapturedAt : Option ℤ := none

section Merge

variable [Timestamps]

open Timestamps

namespace LiveConversationContext

/-- Two messages have never the same time. -/
def nextCapturedAt (context : LiveConversationContext) (now : ℤ) :
    LiveConversationContext × String :=
  let capturedAt := match context.lastCapturedAt with
    | some last => if now ≤ last then last + 1 else now
    | none => now
  ({ context with lastCapturedAt := some capturedAt }, isoformat capturedAt)

def addMessage (context : LiveConversationContext) (now : ℤ) (conversationId : Option String)
    (role : String) (content : Text) :
    LiveConversationContext × Except PyError (Option String) :=
  match conversationId with
  | none => (context, .ok none)
  | some conversationId =>
    let clean := joinWords (splitWords content)
    if clean = [] then (context, .ok none)
    else
      let (context, capturedAt) := context.nextCapturedAt now
      match memoryNodeRecordId conversationId with
      | .error e => (context, .error e)
      | .ok id =>
        ({ context with
            messages := context.messages ++ [⟨id, role, clean, capturedAt⟩]
            activeHumanReplies :=
              if role = "human" then insert capturedAt context.activeHumanReplies
              else context.activeHumanReplies },
          .ok (some capturedAt))

def resolveHumanReply (context : LiveConversationContext) :
    Option String → LiveConversationContext
  | none => context
  | some capturedAt =>
    { context with activeHumanReplies := context.activeHumanReplies.erase capturedAt }

def activeHumanReplyCreatedAt (context : LiveConversationContext) (conversationId : Option String) :
    Except PyError (List String) :=
  match conversationId with
  | none => .ok []
  | some conversationId => do
    let expectedConversationId ← memoryNodeRecordId conversationId
    return (context.messages.filter fun message =>
      message.conversationId = expectedConversationId ∧
        message.capturedAt ∈ context.activeHumanReplies).map (·.capturedAt)

def messagesFor (context : LiveConversationContext) (conversationId : String) :
    List LiveConversationMessage :=
  context.messages.filter (·.conversationId = conversationId)

end LiveConversationContext

def historyMessage (message : LiveConversationMessage) : ConversationHistoryMessage :=
  ⟨message.capturedAt, message.capturedAt, "NONE", message.role, message.content⟩

/-- `persisted_created_at is not None and (live_created_at is None or persisted_created_at >=
live_created_at)` -/
def notEarlier (live : LiveConversationMessage) (message : ConversationHistoryMessage) : Bool :=
  (parseTimestamp message.createdAt).any fun persisted =>
    (parseTimestamp live.capturedAt).all (· ≤ persisted)

/-- The loop of `_replace_persisted_active_reply`, over the messages from the last to the first. -/
def replaceFromLast (live : LiveConversationMessage) :
    List ConversationHistoryMessage → List ConversationHistoryMessage
  | [] => []
  | message :: earlier =>
    if message.role ≠ live.role ∨ message.content ≠ live.content then
      message :: replaceFromLast live earlier
    else if message.createdAt = live.capturedAt then message :: earlier
    else if notEarlier live message then earlier
    else message :: replaceFromLast live earlier

def replacePersistedActiveReply (merged : List ConversationHistoryMessage)
    (live : LiveConversationMessage) : List ConversationHistoryMessage :=
  (replaceFromLast live merged.reverse).reverse

/-- What messages are matched by. -/
structure Key where
  role : String
  content : Text
  deriving DecidableEq

def ConversationHistoryMessage.key (message : ConversationHistoryMessage) : Key :=
  ⟨message.role, message.content⟩

def LiveConversationMessage.key (message : LiveConversationMessage) : Key :=
  ⟨message.role, message.content⟩

/-- The loop over the live messages that appends those not counted as persisted. -/
def appendUnlisted (persistedCounts : Key → ℕ) :
    List LiveConversationMessage → List ConversationHistoryMessage
  | [] => []
  | message :: rest =>
    if 0 < persistedCounts message.key then
      appendUnlisted
        (Function.update persistedCounts message.key (persistedCounts message.key - 1)) rest
    else historyMessage message :: appendUnlisted persistedCounts rest

def LiveConversationContext.merge (context : LiveConversationContext) (now : ℤ)
    (conversation : Option ConversationHistory) (conversationId : Option String) :
    Except PyError (Option ConversationHistory) :=
  match conversationId with
  | none => .ok conversation
  | some conversationId => do
    let expectedConversationId ← memoryNodeRecordId conversationId
    let liveMessages := context.messagesFor expectedConversationId
    if liveMessages = [] then return conversation
    match conversation with
    | none =>
      return some ⟨expectedConversationId, "Current conversation", isoformat now, isoformat now,
        "NONE", liveMessages.map historyMessage⟩
    | some conversation =>
      let activeHumanReplies ← context.activeHumanReplyCreatedAt (some conversationId)
      let merged := liveMessages.foldl (fun merged message =>
        if message.capturedAt ∉ activeHumanReplies then merged
        else replacePersistedActiveReply merged message) conversation.messages
      let persistedCounts : Key → ℕ := fun key =>
        (merged.map ConversationHistoryMessage.key).count key
      return some { conversation with
        messages := merged ++ appendUnlisted persistedCounts liveMessages }

/-! Times. -/

/-- The time a live message was captured at; each of them has one. -/
def LiveConversationMessage.instant (message : LiveConversationMessage) : ℤ :=
  (parseTimestamp message.capturedAt).getD 0

/-- The messages in the order of their times. -/
structure Timed (messages : List LiveConversationMessage) : Prop where
  parsed : ∀ m ∈ messages, parseTimestamp m.capturedAt = some m.instant
  increasing : messages.Pairwise fun m m' => m.instant < m'.instant

inductive Event where
  | add (now : ℤ) (conversationId : Option String) (role : String) (content : Text)
  | resolve (capturedAt : Option String)

namespace LiveConversationContext

def apply (context : LiveConversationContext) : Event → LiveConversationContext
  | .add now conversationId role content => (context.addMessage now conversationId role content).1
  | .resolve capturedAt => context.resolveHumanReply capturedAt

def run (events : List Event) : LiveConversationContext := events.foldl apply {}

/-- No message is later than the last one. -/
structure Clocked (context : LiveConversationContext) : Prop where
  timed : Timed context.messages
  last : ∀ m ∈ context.messages, ∃ last, context.lastCapturedAt = some last ∧ m.instant ≤ last

theorem nextCapturedAt_spec (context : LiveConversationContext) (now : ℤ) :
    ∃ t, context.nextCapturedAt now = ({ context with lastCapturedAt := some t }, isoformat t) ∧
      ∀ last, context.lastCapturedAt = some last → last < t := by
  cases hlast : context.lastCapturedAt with
  | none => exact ⟨now, by simp [nextCapturedAt, hlast], by simp⟩
  | some last =>
    by_cases hnow : now ≤ last
    · exact ⟨last + 1, by simp [nextCapturedAt, hlast, hnow], by simp⟩
    · exact ⟨now, by simp [nextCapturedAt, hlast, hnow], by simpa using hnow⟩

theorem Clocked.add {context : LiveConversationContext} (h : Clocked context) (now : ℤ)
    (conversationId : Option String) (role : String) (content : Text) :
    Clocked (context.addMessage now conversationId role content).1 := by
  cases conversationId with
  | none => exact h
  | some conversationId =>
    by_cases hclean : joinWords (splitWords content) = []
    · simpa only [addMessage, if_pos hclean] using h
    simp only [addMessage, if_neg hclean]
    obtain ⟨t, hnext, hlast⟩ := context.nextCapturedAt_spec now
    have hle : ∀ m ∈ context.messages, m.instant < t := by
      intro m hm
      obtain ⟨last, hcontext, hm⟩ := h.last m hm
      exact lt_of_le_of_lt hm (hlast last hcontext)
    rw [hnext]
    cases memoryNodeRecordId conversationId with
    | error e => exact ⟨h.timed, fun m hm => ⟨t, rfl, (hle m hm).le⟩⟩
    | ok id =>
      have hinstant : ∀ m : LiveConversationMessage, m.capturedAt = isoformat t →
          parseTimestamp m.capturedAt = some m.instant ∧ m.instant = t := by
        intro m hm
        simp [LiveConversationMessage.instant, hm, parse_isoformat]
      refine ⟨⟨fun m hm => ?_, ?_⟩, fun m hm => ?_⟩
      · rcases List.mem_append.mp hm with hm | hm
        · exact h.timed.parsed m hm
        · obtain rfl := List.mem_singleton.mp hm
          exact (hinstant _ rfl).1
      · refine List.pairwise_append.mpr ⟨h.timed.increasing, List.pairwise_singleton _ _, ?_⟩
        intro m hm m' hm'
        obtain rfl := List.mem_singleton.mp hm'
        exact (hle m hm).trans_eq (hinstant _ rfl).2.symm
      · refine ⟨t, rfl, ?_⟩
        rcases List.mem_append.mp hm with hm | hm
        · exact (hle m hm).le
        · obtain rfl := List.mem_singleton.mp hm
          exact (hinstant _ rfl).2.le

theorem clocked_run (events : List Event) : Clocked (run events) := by
  induction events using List.reverseRecOn with
  | nil => exact ⟨⟨fun _ hm => (nomatch hm), List.Pairwise.nil⟩, fun _ hm => (nomatch hm)⟩
  | append_singleton events event ih =>
    rw [run, List.foldl_concat]
    cases event with
    | add now conversationId role content => exact ih.add now conversationId role content
    | resolve capturedAt =>
      cases capturedAt with
      | none => exact ih
      | some capturedAt => exact ⟨ih.timed, ih.last⟩

theorem timed_messagesFor (events : List Event) (id : String) :
    Timed ((run events).messagesFor id) := by
  obtain ⟨hparsed, hincreasing⟩ := (clocked_run events).timed
  exact ⟨fun m hm => hparsed m (List.mem_filter.mp hm).1, hincreasing.filter _⟩

end LiveConversationContext

/-! The loops of the merge. -/

/-- The time of the message is that of the reply. -/
def sameTime (live : LiveConversationMessage) (message : ConversationHistoryMessage) : Bool :=
  message.createdAt = live.capturedAt

/-- Each reply in turn takes a message away, from the last to the first. -/
abbrev replaceAll (replies : List LiveConversationMessage) :
    List ConversationHistoryMessage → List ConversationHistoryMessage :=
  Reconcile.takeAll LiveConversationMessage.key ConversationHistoryMessage.key sameTime notEarlier
    replies

theorem replaceFromLast_eq (live : LiveConversationMessage)
    (messages : List ConversationHistoryMessage) :
    replaceFromLast live messages = Reconcile.take LiveConversationMessage.key
      ConversationHistoryMessage.key sameTime notEarlier live messages := by
  induction messages with
  | nil => rfl
  | cons message earlier ih =>
    have hkey : message.key ≠ live.key ↔
        message.role ≠ live.role ∨ message.content ≠ live.content := by
      rw [ne_eq, ConversationHistoryMessage.key, LiveConversationMessage.key, Key.mk.injEq,
        not_and_or]
    simp only [replaceFromLast, Reconcile.take, ih, hkey, sameTime, decide_eq_true_eq]

theorem foldl_replace (active : String → Prop) [DecidablePred active]
    (live : List LiveConversationMessage) : ∀ messages : List ConversationHistoryMessage,
    live.foldl (fun merged message => if ¬ active message.capturedAt then merged
        else replacePersistedActiveReply merged message) messages =
      (replaceAll (live.filter (active ·.capturedAt)) messages.reverse).reverse := by
  induction live with
  | nil => exact fun messages => (List.reverse_reverse messages).symm
  | cons message live ih =>
    intro messages
    rw [List.foldl_cons, ih]
    by_cases h : active message.capturedAt
    · simp [h, Reconcile.takeAll, replacePersistedActiveReply, replaceFromLast_eq]
    · simp [h]

omit [Timestamps] in
theorem appendUnlisted_eq (live : List LiveConversationMessage) : ∀ counts : Key → ℕ,
    appendUnlisted counts live =
      (Reconcile.unmatched LiveConversationMessage.key counts live).map historyMessage := by
  induction live with
  | nil => exact fun _ => rfl
  | cons message live ih =>
    intro counts
    rw [appendUnlisted, Reconcile.unmatched]
    split_ifs
    · exact ih _
    · rw [ih, List.map_cons]

/-- The live messages that wait for their answer. -/
def activeReplies (context : LiveConversationContext) (live : List LiveConversationMessage) :
    List LiveConversationMessage :=
  live.filter (·.capturedAt ∈ context.activeHumanReplies)

/-- How often a role and text stands in some messages. -/
def occurrences (messages : List ConversationHistoryMessage) (key : Key) : ℕ :=
  (messages.map ConversationHistoryMessage.key).count key

/-- What the active replies leave of the stored messages. -/
def keptMessages (replies : List LiveConversationMessage)
    (messages : List ConversationHistoryMessage) : List ConversationHistoryMessage :=
  (replaceAll replies messages.reverse).reverse

/-- What is appended for the live messages. -/
def appendedMessages (live : List LiveConversationMessage)
    (kept : List ConversationHistoryMessage) : List LiveConversationMessage :=
  Reconcile.unmatched LiveConversationMessage.key (occurrences kept) live

theorem merge_messages (context : LiveConversationContext) (now : ℤ)
    (conversation : ConversationHistory) {conversationId : String}
    (hid : isMemoryNodeId conversationId = true) {live : List LiveConversationMessage}
    (hliveMessages : live = context.messagesFor conversationId)
    {kept : List ConversationHistoryMessage}
    (hkept : kept = keptMessages (activeReplies context live) conversation.messages) :
    ∃ merged, context.merge now (some conversation) (some conversationId) = .ok (some merged) ∧
      merged.messages = kept ++ (appendedMessages live kept).map historyMessage := by
  have hrecord : memoryNodeRecordId conversationId = .ok conversationId := if_pos hid
  subst hliveMessages
  by_cases hlive : context.messagesFor conversationId = []
  · refine ⟨conversation, ?_, ?_⟩
    · simp only [LiveConversationContext.merge, hrecord]
      exact if_pos hlive
    · rw [hkept, hlive]
      simp [keptMessages, appendedMessages, activeReplies, Reconcile.takeAll, Reconcile.unmatched]
  · let ids := (context.messages.filter fun message =>
      message.conversationId = conversationId ∧
        message.capturedAt ∈ context.activeHumanReplies).map (·.capturedAt)
    have hids : context.activeHumanReplyCreatedAt (some conversationId) = .ok ids := by
      simp only [LiveConversationContext.activeHumanReplyCreatedAt, hrecord]
      rfl
    have hmem : ∀ m ∈ context.messagesFor conversationId,
        decide (m.capturedAt ∈ ids) = decide (m.capturedAt ∈ context.activeHumanReplies) := by
      intro m hm
      obtain ⟨hmessage, hconversation⟩ := List.mem_filter.mp hm
      refine decide_eq_decide.mpr ⟨fun h => ?_, fun h => ?_⟩
      · obtain ⟨m', hm', heq⟩ := List.mem_map.mp h
        have hactive := of_decide_eq_true (List.mem_filter.mp hm').2
        exact heq ▸ hactive.2
      · refine List.mem_map.mpr ⟨m, List.mem_filter.mpr ⟨hmessage, ?_⟩, rfl⟩
        simpa using ⟨of_decide_eq_true hconversation, h⟩
    have hloop : (context.messagesFor conversationId).foldl (fun merged message =>
        if message.capturedAt ∉ ids then merged
        else replacePersistedActiveReply merged message) conversation.messages = kept := by
      rw [foldl_replace, hkept, keptMessages, activeReplies, List.filter_congr hmem]
    refine ⟨{ conversation with
      messages := kept ++ appendUnlisted (occurrences kept) (context.messagesFor conversationId) },
      ?_, by rw [appendUnlisted_eq]; rfl⟩
    simp only [LiveConversationContext.merge, hrecord, hids, bind, Except.bind, if_neg hlive]
    rw [hloop]
    rfl

/-! A persisted history: older messages, and copies of some of the live ones. -/

/-- A live message, and its copy where it is stored already. -/
structure Entry where
  message : LiveConversationMessage
  stored : Option ConversationHistoryMessage

/-- The text that was given, under a later time. -/
structure StoredCopy (message : LiveConversationMessage) (copy : ConversationHistoryMessage) :
    Prop where
  role : copy.role = message.role
  content : joinWords (splitWords copy.content) = message.content
  later : ∃ u, parseTimestamp copy.createdAt = some u ∧ message.instant < u

def liveOf (entries : List Entry) : List LiveConversationMessage := entries.map (·.message)

def copiesOf (entries : List Entry) : List ConversationHistoryMessage :=
  entries.filterMap (·.stored)

/-- The message is listed itself, or its copy is. -/
def Lists (entry : Entry) (listed : ConversationHistoryMessage) : Prop :=
  listed = historyMessage entry.message ∨ entry.stored = some listed

/-- The older messages, and then each live message once, in their order. -/
def ListsOnce (older : List ConversationHistoryMessage) (entries : List Entry)
    (messages : List ConversationHistoryMessage) : Prop :=
  ∃ listed, messages = older ++ listed ∧ List.Forall₂ Lists entries listed

/-- What is known of the entries. -/
structure Persisted (older : List ConversationHistoryMessage) (entries : List Entry) : Prop where
  timed : Timed (liveOf entries)
  copies : ∀ e ∈ entries, ∀ c ∈ e.stored, StoredCopy e.message c
  older : ∀ o ∈ older, ∀ u, parseTimestamp o.createdAt = some u →
    ∀ m ∈ liveOf entries, u < m.instant

/-- The live messages up to some point are those whose copies stay, and they are counted. -/
structure Recognized (replies : List LiveConversationMessage)
    (older : List ConversationHistoryMessage) (front back : List Entry) : Prop where
  stored : ∀ e ∈ front, e.stored.isSome = true
  /-- The replies take the copies of the others, from the last one, and none of these. -/
  replaced : Reconcile.Paired LiveConversationMessage.key ConversationHistoryMessage.key sameTime
    notEarlier replies (copiesOf front).reverse (copiesOf back).reverse
  /-- A copy with other white space than its message is made up for by an older message. -/
  counted : ∀ key, ((liveOf front).map LiveConversationMessage.key).count key ≤
    occurrences (older ++ copiesOf front) key
  /-- No older message has the role and text of a message that is not listed yet, unless a copy
  before was not counted. -/
  fresh : ∀ m ∈ liveOf back, occurrences (older ++ copiesOf front) m.key ≤
    ((liveOf front).map LiveConversationMessage.key).count m.key

section Persisted

variable {older : List ConversationHistoryMessage} {entries front back : List Entry}

omit [Timestamps] in
theorem liveOf_append : liveOf (front ++ back) = liveOf front ++ liveOf back := List.map_append

omit [Timestamps] in
theorem copiesOf_append : copiesOf (front ++ back) = copiesOf front ++ copiesOf back :=
  List.filterMap_append

theorem instant_of_capturedAt {m m' : LiveConversationMessage} (h : m.capturedAt = m'.capturedAt) :
    m.instant = m'.instant := by
  rw [LiveConversationMessage.instant, h, LiveConversationMessage.instant]

/-- What a reply does not take, no later one takes. -/
theorem takes_of_later {messages : List LiveConversationMessage} (h : Timed messages) :
    messages.Pairwise fun m m' => ∀ c : ConversationHistoryMessage, c.key = m.key → m'.key = m.key →
      ¬ Reconcile.Takes sameTime notEarlier m c → ¬ Reconcile.Takes sameTime notEarlier m' c := by
  refine h.increasing.imp_of_mem fun {m m'} hm hm' hlt c _ _ hnot htakes => hnot ?_
  obtain ⟨-, hready⟩ := htakes
  have hparsed := h.parsed m hm
  have hparsed' := h.parsed m' hm'
  simp only [notEarlier, hparsed'] at hready
  cases hc : parseTimestamp c.createdAt with
  | none => simp [hc] at hready
  | some u =>
    have hle : m'.instant ≤ u := by simpa [hc] using hready
    have hne : c.createdAt ≠ m.capturedAt := by
      intro heq
      rw [heq, hparsed, Option.some.injEq] at hc
      omega
    exact ⟨by simpa [sameTime] using hne, by simp only [notEarlier, hc, hparsed]; simp; omega⟩

theorem Persisted.keptMessages (h : Persisted older entries)
    {replies : List LiveConversationMessage} (hreplies : replies.Sublist (liveOf entries)) :
    keptMessages replies (older ++ copiesOf entries) =
      older ++ AgentFlow.keptMessages replies (copiesOf entries) := by
  have holder : ∀ m ∈ replies, ∀ o ∈ older.reverse,
      sameTime m o = false ∧ notEarlier m o = false := by
    intro m hm o ho
    have hmem := hreplies.subset hm
    have hparsed := h.timed.parsed m hmem
    have hlt := h.older o (List.mem_reverse.mp ho)
    constructor
    · refine decide_eq_false fun heq => ?_
      have := hlt m.instant (by rw [heq, hparsed]) m hmem
      omega
    · rw [notEarlier, hparsed]
      cases hu : parseTimestamp o.createdAt with
      | none => rfl
      | some u => simpa using hlt u hu m hmem
  rw [AgentFlow.keptMessages, List.reverse_append, replaceAll,
    Reconcile.takeAll_append_of_not_ready holder, List.reverse_append, List.reverse_reverse]
  rfl

theorem keptMessages_sublist (replies : List LiveConversationMessage)
    (messages : List ConversationHistoryMessage) :
    (keptMessages replies messages).Sublist messages := by
  have h : (replaceAll replies messages.reverse).Sublist messages.reverse :=
    Reconcile.takeAll_sublist replies _
  simpa [keptMessages] using h.reverse

omit [Timestamps] in
theorem appendedMessages_sublist (live : List LiveConversationMessage)
    (kept : List ConversationHistoryMessage) : (appendedMessages live kept).Sublist live :=
  Reconcile.unmatched_sublist live _

theorem keptMessages_eq_iff (h : Timed (liveOf entries)) {replies : List LiveConversationMessage}
    (hreplies : replies.Sublist (liveOf entries)) (hentries : entries = front ++ back) :
    keptMessages replies (copiesOf entries) = copiesOf front ↔
      Reconcile.Paired LiveConversationMessage.key ConversationHistoryMessage.key sameTime
        notEarlier replies (copiesOf front).reverse (copiesOf back).reverse := by
  rw [← Reconcile.takeAll_eq_iff _ ((takes_of_later h).sublist hreplies), hentries, copiesOf_append,
    keptMessages, List.reverse_append, List.reverse_eq_iff]

/-- A copy is later than every message up to its own. -/
theorem lt_of_mem_copiesOf {e : Entry} {c : ConversationHistoryMessage}
    (htimed : Timed (liveOf (e :: entries)))
    (hcopies : ∀ e' ∈ e :: entries, ∀ c ∈ e'.stored, StoredCopy e'.message c)
    (hc : c ∈ copiesOf (e :: entries)) :
    ∃ u, parseTimestamp c.createdAt = some u ∧ e.message.instant < u := by
  obtain ⟨e', he', hstored⟩ := List.mem_filterMap.mp hc
  obtain ⟨u, hu, hlt⟩ := (hcopies e' he' c hstored).later
  refine ⟨u, hu, ?_⟩
  rcases List.mem_cons.mp he' with rfl | he'
  · exact hlt
  · have hfirst := (List.pairwise_cons.mp htimed.increasing).1 e'.message
      (List.mem_map_of_mem he')
    exact hfirst.trans hlt

theorem Timed.tail {m : LiveConversationMessage} {messages : List LiveConversationMessage}
    (h : Timed (m :: messages)) : Timed messages :=
  ⟨fun m' hm' => h.parsed m' (List.mem_cons_of_mem _ hm'), (List.pairwise_cons.mp h.increasing).2⟩

/-- Copies that are listed first are those of the first messages. -/
theorem exists_front {kept rest : List ConversationHistoryMessage} :
    ∀ {entries : List Entry}, Timed (liveOf entries) →
      (∀ e ∈ entries, ∀ c ∈ e.stored, StoredCopy e.message c) →
      kept.Sublist (copiesOf entries) → List.Forall₂ Lists entries (kept ++ rest) →
      ∃ front back, entries = front ++ back ∧ (∀ e ∈ front, e.stored.isSome = true) ∧
        copiesOf front = kept ∧ List.Forall₂ Lists back rest := by
  induction kept with
  | nil => exact fun {entries} _ _ _ h => ⟨[], entries, rfl, by simp, rfl, h⟩
  | cons c kept ih =>
    intro entries htimed hcopies hsublist h
    cases h with
    | @cons e _ es _ hlists h =>
      have hstored : e.stored = some c := by
        refine hlists.resolve_left fun heq => ?_
        obtain ⟨u, hu, hlt⟩ :=
          lt_of_mem_copiesOf htimed hcopies (hsublist.subset List.mem_cons_self)
        have hparsed := htimed.parsed e.message List.mem_cons_self
        rw [heq] at hu
        have := Option.some.inj (hparsed.symm.trans hu)
        omega
      have htail : kept.Sublist (copiesOf es) := by
        rw [copiesOf, List.filterMap_cons_some hstored] at hsublist
        exact List.cons_sublist_cons.mp hsublist
      obtain ⟨front, back, rfl, hsome, rfl, hback⟩ :=
        ih htimed.tail (fun e' he' => hcopies e' (List.mem_cons_of_mem _ he')) htail h
      exact ⟨e :: front, back, rfl, by simpa [hstored] using hsome,
        by rw [copiesOf, List.filterMap_cons_some hstored]; rfl, hback⟩

/-- Live messages that are listed last are the last ones. -/
theorem eq_back {appended : List LiveConversationMessage} (htimed : Timed (liveOf (front ++ back)))
    (hcopies : ∀ e ∈ back, ∀ c ∈ e.stored, StoredCopy e.message c)
    (hsublist : appended.Sublist (liveOf (front ++ back)))
    (h : List.Forall₂ Lists back (appended.map historyMessage)) : appended = liveOf back := by
  have hlength : appended.length = (liveOf back).length := by
    have := h.length_eq
    simpa [liveOf] using this.symm
  cases back with
  | nil => exact List.eq_nil_of_length_eq_zero hlength
  | cons e back =>
    cases appended with
    | nil => simp [liveOf] at hlength
    | cons m appended =>
      obtain ⟨hlists, -⟩ := List.forall₂_cons.mp h
      have hm : m ∈ liveOf (front ++ e :: back) := hsublist.subset List.mem_cons_self
      have hle : e.message.instant ≤ m.instant := by
        rcases hlists with heq | hstored
        · have hcaptured : m.capturedAt = e.message.capturedAt :=
            congrArg ConversationHistoryMessage.createdAt heq
          exact (instant_of_capturedAt hcaptured).ge
        · obtain ⟨u, hu, hlt⟩ := (hcopies e List.mem_cons_self _ hstored).later
          obtain rfl := Option.some.inj ((htimed.parsed m hm).symm.trans hu)
          exact hlt.le
      rw [liveOf_append] at hsublist htimed
      obtain ⟨before, after, happended, hbefore, hafter⟩ := List.sublist_append_iff.mp hsublist
      cases before with
      | nil =>
        rw [happended, List.nil_append] at hlength ⊢
        exact hafter.eq_of_length hlength
      | cons m' before =>
        -- a message of the front would be earlier
        obtain ⟨rfl, -⟩ := List.cons.inj happended
        have hlt := (List.pairwise_append.mp htimed.increasing).2.2 m
          (hbefore.subset List.mem_cons_self) e.message List.mem_cons_self
        omega

omit [Timestamps] in
theorem forall₂_copies (hsome : ∀ e ∈ front, e.stored.isSome = true) :
    List.Forall₂ Lists front (copiesOf front) := by
  induction front with
  | nil => exact .nil
  | cons e front ih =>
    rw [List.forall_mem_cons] at hsome
    obtain ⟨c, hc⟩ := Option.isSome_iff_exists.mp hsome.1
    rw [copiesOf, List.filterMap_cons_some hc]
    exact .cons (.inr hc) (ih hsome.2)

omit [Timestamps] in
theorem forall₂_live (back : List Entry) :
    List.Forall₂ Lists back ((liveOf back).map historyMessage) := by
  induction back with
  | nil => exact .nil
  | cons e back ih => exact .cons (.inl rfl) ih

/-- The lists of the merge list each message once exactly where they divide the entries. -/
theorem forall₂_lists_iff (h : Persisted older entries) {kept : List ConversationHistoryMessage}
    {appended : List LiveConversationMessage} (hkept : kept.Sublist (copiesOf entries))
    (happended : appended.Sublist (liveOf entries)) :
    List.Forall₂ Lists entries (kept ++ appended.map historyMessage) ↔
      ∃ front back, entries = front ++ back ∧ (∀ e ∈ front, e.stored.isSome = true) ∧
        kept = copiesOf front ∧ appended = liveOf back := by
  constructor
  · intro hlists
    obtain ⟨front, back, rfl, hsome, rfl, hback⟩ := exists_front h.timed h.copies hkept hlists
    exact ⟨front, back, rfl, hsome, rfl, eq_back h.timed
      (fun e he => h.copies e (List.mem_append_right _ he)) happended hback⟩
  · rintro ⟨front, back, rfl, hsome, rfl, rfl⟩
    exact List.rel_append (forall₂_copies hsome) (forall₂_live back)

theorem appended_eq_iff (h : Persisted older entries) (hentries : entries = front ++ back) :
    appendedMessages (liveOf entries) (older ++ copiesOf front) = liveOf back ↔
      (∀ key, ((liveOf front).map LiveConversationMessage.key).count key ≤
        occurrences (older ++ copiesOf front) key) ∧
      ∀ m ∈ liveOf back, occurrences (older ++ copiesOf front) m.key ≤
        ((liveOf front).map LiveConversationMessage.key).count m.key := by
  have htimed := h.timed.increasing
  rw [hentries, liveOf_append] at htimed
  have hdisjoint : ∀ m ∈ liveOf front, m ∉ liveOf back := by
    intro m hm hm'
    have := (List.pairwise_append.mp htimed).2.2 m hm m hm'
    omega
  rw [hentries, liveOf_append]
  exact Reconcile.unmatched_eq_right_iff hdisjoint _

end Persisted

/-- A history of older messages and copies of live ones is merged into the older messages and each
live message once, in their order, exactly where the live ones up to some point are recognized. -/
theorem merge_lists_once_iff {events : List Event} {conversationId : String}
    (hid : isMemoryNodeId conversationId = true) (now : ℤ) {conversation : ConversationHistory}
    {older : List ConversationHistoryMessage} {entries : List Entry}
    (hlive : liveOf entries = (LiveConversationContext.run events).messagesFor conversationId)
    (hcopies : ∀ e ∈ entries, ∀ c ∈ e.stored, StoredCopy e.message c)
    (holder : ∀ o ∈ older, ∀ u, parseTimestamp o.createdAt = some u →
      ∀ m ∈ liveOf entries, u < m.instant)
    (hmessages : conversation.messages = older ++ copiesOf entries) :
    (∃ merged, (LiveConversationContext.run events).merge now (some conversation)
        (some conversationId) = .ok (some merged) ∧ ListsOnce older entries merged.messages) ↔
      ∃ front back, entries = front ++ back ∧
        Recognized (activeReplies (LiveConversationContext.run events) (liveOf entries)) older
          front back := by
  have h : Persisted older entries :=
    ⟨hlive ▸ LiveConversationContext.timed_messagesFor events conversationId, hcopies, holder⟩
  have hreplies : (activeReplies (LiveConversationContext.run events) (liveOf entries)).Sublist
      (liveOf entries) := List.filter_sublist
  obtain ⟨merged, hmerge, hmerged⟩ := merge_messages (LiveConversationContext.run events) now
    conversation hid hlive rfl
  have hlists : (∃ merged, (LiveConversationContext.run events).merge now (some conversation)
      (some conversationId) = .ok (some merged) ∧ ListsOnce older entries merged.messages) ↔
        ListsOnce older entries merged.messages := by
    constructor
    · rintro ⟨merged', hmerge', hlists⟩
      rw [hmerge'] at hmerge
      obtain rfl := Option.some.inj (Except.ok.inj hmerge)
      exact hlists
    · exact fun hlists => ⟨merged, hmerge, hlists⟩
  rw [hmessages, h.keptMessages hreplies, List.append_assoc] at hmerged
  rw [hlists, ListsOnce, hmerged]
  simp only [List.append_cancel_left_eq, exists_eq_left']
  rw [forall₂_lists_iff h (keptMessages_sublist _ _) (appendedMessages_sublist _ _)]
  refine exists_congr fun front => exists_congr fun back => and_congr_right fun hentries => ?_
  constructor
  · rintro ⟨hsome, hkept, happended⟩
    rw [hkept] at happended
    obtain ⟨hcounted, hfresh⟩ := (appended_eq_iff h hentries).mp happended
    exact ⟨hsome, (keptMessages_eq_iff h.timed hreplies hentries).mp hkept, hcounted, hfresh⟩
  · intro hrecognized
    have hkept := (keptMessages_eq_iff h.timed hreplies hentries).mpr hrecognized.replaced
    rw [hkept]
    exact ⟨hrecognized.stored, rfl,
      (appended_eq_iff h hentries).mpr ⟨hrecognized.counted, hrecognized.fresh⟩⟩

end Merge

/-! Runs. -/

namespace TestVectors

/-- The first microseconds, and the times of the store. -/
def knownTimes : List (String × ℤ) :=
  [("1970-01-01T00:00:00.000001Z", 1), ("1970-01-01T00:00:00.000002Z", 2),
    ("1970-01-01T00:00:00.000003Z", 3), ("1970-01-01T00:00:00+00:00", 0),
    ("1970-01-01T00:00:00.000004+00:00", 4), ("1970-01-01T00:00:00.000005+00:00", 5)]

def otherTime (t : ℤ) : String :=
  String.ofList ((if 0 ≤ t then '+' else '-') :: List.replicate t.natAbs 'x')

def parseOther (text : String) : Option ℤ :=
  match text.toList with
  | '+' :: rest => some rest.length
  | '-' :: rest => some (-rest.length)
  | _ => none

theorem parseOther_otherTime (t : ℤ) : parseOther (otherTime t) = some t := by
  by_cases ht : 0 ≤ t
  · simp [parseOther, otherTime, ht]
  · simp only [parseOther, otherTime, ht, if_false, String.toList_ofList, List.length_replicate,
      Option.some.injEq]
    omega

theorem lookup_otherTime (t : ℤ) : knownTimes.lookup (otherTime t) = none := by
  have hhead : ∀ p ∈ knownTimes, p.1.toList.head? = some '1' := by decide
  rw [List.lookup_eq_none_iff]
  intro p hp
  have hne : otherTime t ≠ p.1 := by
    intro h
    have := hhead p hp
    rw [← h, otherTime, String.toList_ofList, List.head?_cons, Option.some.injEq] at this
    split_ifs at this <;> revert this <;> decide
  simpa using hne

instance knownTimestamps : Timestamps where
  isoformat t :=
    if t = 1 then "1970-01-01T00:00:00.000001Z"
    else if t = 2 then "1970-01-01T00:00:00.000002Z"
    else if t = 3 then "1970-01-01T00:00:00.000003Z"
    else otherTime t
  parseTimestamp text := (knownTimes.lookup text).or (parseOther text)
  parse_isoformat t := by
    split_ifs with h1 h2 h3
    · exact h1 ▸ by decide
    · exact h2 ▸ by decide
    · exact h3 ▸ by decide
    · rw [lookup_otherTime, Option.none_or, parseOther_otherTime]

/-- Three messages: a request that was answered, the answer, and a reply that waits. -/
def threeMessages : List Event :=
  [.add 1 (some "memory_node:c") "human" "open it".toList,
    .add 2 (some "memory_node:c") "validation_reply" "which one".toList,
    .add 2 (some "memory_node:c") "human" "this".toList,
    .resolve (some "1970-01-01T00:00:00.000001Z")]

def stored (microsecond : String) (role content : String) : ConversationHistoryMessage :=
  ⟨microsecond, microsecond, "NONE", role, content.toList⟩

def greeting : ConversationHistoryMessage := stored "1970-01-01T00:00:00+00:00" "agent" "hello"

def answered : List Entry :=
  [⟨⟨"memory_node:c", "human", "open it".toList, "1970-01-01T00:00:00.000001Z"⟩,
      some (stored "1970-01-01T00:00:00.000004+00:00" "human" "open it")⟩,
    ⟨⟨"memory_node:c", "validation_reply", "which one".toList, "1970-01-01T00:00:00.000002Z"⟩,
      some (stored "1970-01-01T00:00:00.000005+00:00" "validation_reply" "which one")⟩]

def waiting : Entry :=
  ⟨⟨"memory_node:c", "human", "this".toList, "1970-01-01T00:00:00.000003Z"⟩, none⟩

def history (messages : List ConversationHistoryMessage) : ConversationHistory :=
  ⟨"memory_node:c", "Current conversation", "1970-01-01T00:00:00+00:00",
    "1970-01-01T00:00:00+00:00", "NONE", messages⟩

theorem storedCopy_answered : ∀ e ∈ answered ++ [waiting], ∀ c ∈ e.stored,
    StoredCopy e.message c := by
  intro e he c hc
  have hrole : ∀ e ∈ answered ++ [waiting], ∀ c ∈ e.stored, c.role = e.message.role ∧
      joinWords (splitWords c.content) = e.message.content := by decide +kernel
  have hlater : ∀ e ∈ answered ++ [waiting], ∀ c ∈ e.stored,
      (Timestamps.parseTimestamp c.createdAt).any (e.message.instant < ·) = true := by
    decide +kernel
  obtain ⟨u, hu, hlt⟩ := (Option.any_eq_true _ _).mp (hlater e he c hc)
  exact ⟨(hrole e he c hc).1, (hrole e he c hc).2, u, hu, by simpa using hlt⟩

/-- A greeting, two messages that are stored already, and one that is not. -/
theorem merge_lists_once_waiting :
    ∃ merged, (LiveConversationContext.run threeMessages).merge 3
        (some (history (greeting :: copiesOf answered))) (some "memory_node:c") =
          .ok (some merged) ∧
      ListsOnce [greeting] (answered ++ [waiting]) merged.messages := by
  have hlive : liveOf (answered ++ [waiting]) =
      (LiveConversationContext.run threeMessages).messagesFor "memory_node:c" := by
    decide +kernel
  have hreplies : activeReplies (LiveConversationContext.run threeMessages)
      (liveOf (answered ++ [waiting])) = [waiting.message] := by decide +kernel
  have holder : ∀ o ∈ [greeting], ∀ u, Timestamps.parseTimestamp o.createdAt = some u →
      ∀ m ∈ liveOf (answered ++ [waiting]), u < m.instant := by
    intro o ho u hu
    obtain rfl := List.mem_singleton.mp ho
    obtain rfl : 0 = u := Option.some.inj ((by decide +kernel :
      Timestamps.parseTimestamp greeting.createdAt = some 0).symm.trans hu)
    decide +kernel
  have hkeys : (liveOf answered).map LiveConversationMessage.key =
      (copiesOf answered).map ConversationHistoryMessage.key := by decide +kernel
  refine (merge_lists_once_iff (by decide +kernel) 3 hlive storedCopy_answered holder
    (by decide +kernel)).mpr ⟨answered, [waiting], rfl, by decide +kernel, ?_, fun key => ?_,
      by decide +kernel⟩
  · rw [hreplies]
    refine (Reconcile.paired_cons_of_nil (by decide +kernel)).mpr
      ⟨?_, Reconcile.paired_nil.mpr (by decide +kernel)⟩
    show ∀ b ∈ _, _
    decide +kernel
  · rw [hkeys, occurrences, List.map_append, List.count_append]
    exact Nat.le_add_left _ _

/-- A reply that was given before in the same words counts as stored: it is not listed. -/
theorem merge_loses_repeated_reply :
    ¬ ∀ (events : List Event) (conversationId : String) (now : ℤ)
      (conversation : ConversationHistory) (older : List ConversationHistoryMessage)
      (entries : List Entry), isMemoryNodeId conversationId = true →
      liveOf entries = (LiveConversationContext.run events).messagesFor conversationId →
      (∀ e ∈ entries, ∀ c ∈ e.stored, StoredCopy e.message c) →
      (∀ o ∈ older, ∀ u, Timestamps.parseTimestamp o.createdAt = some u →
        ∀ m ∈ liveOf entries, u < m.instant) →
      conversation.messages = older ++ copiesOf entries →
      ∃ merged, (LiveConversationContext.run events).merge now (some conversation)
          (some conversationId) = .ok (some merged) ∧
        ListsOnce older entries merged.messages := by
  intro h
  have hrun : (LiveConversationContext.run
      [.add 1 (some "memory_node:c") "human" "yes".toList]).merge 1 (some (history [stored "1970-01-01T00:00:00+00:00" "human" "yes"]))
        (some "memory_node:c") =
      .ok (some (history [stored "1970-01-01T00:00:00+00:00" "human" "yes"])) := by
    decide +kernel
  have holder : ∀ o ∈ [stored "1970-01-01T00:00:00+00:00" "human" "yes"], ∀ u,
      Timestamps.parseTimestamp o.createdAt = some u →
      ∀ m ∈ [(⟨"memory_node:c", "human", "yes".toList, "1970-01-01T00:00:00.000001Z"⟩ :
        LiveConversationMessage)], u < m.instant := by
    intro o ho u hu
    obtain rfl := List.mem_singleton.mp ho
    obtain rfl : 0 = u := Option.some.inj ((by decide +kernel : Timestamps.parseTimestamp
      (stored "1970-01-01T00:00:00+00:00" "human" "yes").createdAt = some 0).symm.trans hu)
    decide +kernel
  obtain ⟨merged, hmerged, listed, hlisted, hlists⟩ :=
    h [.add 1 (some "memory_node:c") "human" "yes".toList] "memory_node:c" 1
      (history [stored "1970-01-01T00:00:00+00:00" "human" "yes"])
      [stored "1970-01-01T00:00:00+00:00" "human" "yes"]
      [⟨⟨"memory_node:c", "human", "yes".toList, "1970-01-01T00:00:00.000001Z"⟩, none⟩]
      (by decide +kernel) (by decide +kernel) (by simp) holder (by decide +kernel)
  rw [hrun] at hmerged
  obtain rfl := Option.some.inj (Except.ok.inj hmerged)
  obtain rfl : listed = [] := by simpa [history] using hlisted
  cases hlists

end TestVectors

end AgentFlow
