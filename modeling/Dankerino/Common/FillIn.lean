import Dankerino.Common.Channel
import Dankerino.Infra.StableMerge

/-!
# Filling in missing messages

`Channel::fillInMissingMessages` merges messages that were received earlier into a channel. Its
loop inserts into the bounded queue one message at a time and searches a snapshot taken before. The
queue always holds the last `limit` messages of the merge so far (`fillInLoop_spec`), so what the
call does is said by the unbounded merge `mergeInto goesBefore`.
-/

namespace Dankerino

open Infra

/-! ## Inserting into a window -/

namespace LimitedQueue

variable {q : LimitedQueue Message} {front back : List Message} {s m : Message}

/-- An element is in the window, or everything in front of it fell out and it did too. -/
theorem window_cases (n : Nat) (front : List Message) (s : Message) (back : List Message) :
    (back.length < n ∧ (front ++ s :: back).rtake n
        = front.rtake (n - (back.length + 1)) ++ s :: back) ∨
      (n ≤ back.length ∧ (front ++ s :: back).rtake n = back.rtake n) := by
  rcases Nat.lt_or_ge back.length n with h | h
  · refine .inl ⟨h, ?_⟩
    rw [rtake_append, rtake_of_length_le (show (s :: back).length ≤ n from h), List.length_cons]
  · refine .inr ⟨h, ?_⟩
    rw [← List.singleton_append, ← List.append_assoc, rtake_append_of_le _ h]

/-- Inserting before an element of the window's list moves the window along. -/
theorem insertBefore_window (hq : q.items = (front ++ s :: back).rtake q.limit)
    (hnd : ((front ++ s :: back).map Message.addr).Nodup) :
    (q.insertBefore Message.same s m).1.items = (front ++ m :: s :: back).rtake q.limit ∧
      (q.insertBefore Message.same s m).1.limit = q.limit := by
  rcases window_cases q.limit front s back with ⟨hlt, hw⟩ | ⟨hle, hw⟩
  · have hsub : (front.rtake (q.limit - (back.length + 1)) ++ s :: back).Sublist
        (front ++ s :: back) := (rtake_suffix _ _).sublist.append_right _
    have hidx : q.items.findIdx? (fun x => Message.same x s)
        = some (front.rtake (q.limit - (back.length + 1))).length := by
      rw [hq, hw]
      exact findIdx?_addr (hnd.sublist (hsub.map Message.addr))
    obtain ⟨hitems, hlimit⟩ := insertBefore_items hidx m
    refine ⟨?_, hlimit⟩
    rw [hitems, hq, hw, List.take_left, List.drop_left, rtake_append, rtake_append, rtake_rtake]
    congr 2
    simp only [List.length_cons]
    omega
  · have hnone : q.items.findIdx? (fun x => Message.same x s) = none := by
      refine findIdx?_addr_none fun hmem => ?_
      rw [hq, hw] at hmem
      rw [List.map_append, List.map_cons] at hnd
      exact (List.nodup_cons.mp (List.nodup_append.mp hnd).2.1).1
        (((rtake_suffix _ _).sublist.map _).mem hmem)
    rw [insertBefore_of_none hnone]
    refine ⟨?_, rfl⟩
    rw [hq, hw, ← rtake_append_of_le (front ++ [m, s]) hle, List.append_assoc]
    rfl

/-- The same for inserting after an element that is in the window. -/
theorem insertAfter_window (hq : q.items = (front ++ s :: back).rtake q.limit)
    (hnd : ((front ++ s :: back).map Message.addr).Nodup) (hlt : back.length < q.limit) :
    (q.insertAfter Message.same s m).1.items = (front ++ s :: m :: back).rtake q.limit ∧
      (q.insertAfter Message.same s m).1.limit = q.limit := by
  rcases window_cases q.limit front s back with ⟨-, hw⟩ | ⟨hle, -⟩
  · have hsub : (front.rtake (q.limit - (back.length + 1)) ++ s :: back).Sublist
        (front ++ s :: back) := (rtake_suffix _ _).sublist.append_right _
    have hidx : q.items.findIdx? (fun x => Message.same x s)
        = some (front.rtake (q.limit - (back.length + 1))).length := by
      rw [hq, hw]
      exact findIdx?_addr (hnd.sublist (hsub.map Message.addr))
    obtain ⟨hitems, hlimit⟩ := insertAfter_items hidx m
    refine ⟨?_, hlimit⟩
    rw [hitems, hq, hw, List.take_length_add_append, List.drop_length_add_append,
      List.append_assoc, rtake_append, rtake_append front, rtake_rtake]
    congr 2
    simp only [List.length_append, List.length_cons, List.take_succ_cons, List.drop_succ_cons,
      List.take_zero, List.drop_zero, List.length_nil]
    omega
  · omega

end LimitedQueue

namespace Channel

/-! ## The merge -/

/-- A message is put in front of the first newer message that is no system message. -/
def goesBefore (msg s : Message) : Bool :=
  !s.isSystem && decide (msg.serverReceivedTime < s.serverReceivedTime)

/-- The messages whose id is not present yet. -/
def missing (present messages : List Message) : List Message :=
  messages.filter fun m => decide (m.id ∉ existingMessageIds present)

def merged (present messages : List Message) : List Message :=
  mergeInto goesBefore present (missing present messages)

/-- Received in this order. -/
def InOrder (messages : List Message) : Prop :=
  messages.Pairwise fun a b => a.serverReceivedTime ≤ b.serverReceivedTime

/-- The messages that are no system messages were received in this order. -/
def Ascending (messages : List Message) : Prop :=
  InOrder (messages.filter fun m => !m.isSystem)

theorem steady_of_inOrder {messages : List Message} (h : InOrder messages) :
    Steady goesBefore messages := by
  refine List.Pairwise.imp ?_ h
  intro a b hab s hs
  simp only [goesBefore, Bool.and_eq_true, decide_eq_true_iff] at hs ⊢
  exact ⟨hs.1, Int.lt_of_le_of_lt hab hs.2⟩

theorem ascending_iff (messages : List Message) : Ascending messages ↔
    messages.Pairwise fun a b => a.isSystem = false → b.isSystem = false →
      a.serverReceivedTime ≤ b.serverReceivedTime := by
  rw [Ascending, InOrder, List.pairwise_filter]
  simp

theorem ascending_merged {present messages : List Message} (hp : Ascending present)
    (hm : InOrder messages) : Ascending (merged present messages) := by
  have hm' : InOrder (missing present messages) := hm.sublist List.filter_sublist
  rw [ascending_iff] at hp ⊢
  refine mergeInto_pairwise ?_ ?_ ?_ hp (hm'.imp fun h _ _ => h) (steady_of_inOrder hm')
  · intro m s h _ _
    simp only [goesBefore, Bool.and_eq_true, decide_eq_true_iff] at h
    exact Int.le_of_lt h.2
  · intro m s s' h hss' _ hs'
    simp only [goesBefore, Bool.and_eq_true, decide_eq_true_iff, Bool.not_eq_true'] at h
    exact Int.le_trans (Int.le_of_lt h.2) (hss' h.1 hs')
  · intro m s h hs _
    simp only [goesBefore, hs, Bool.not_false, Bool.true_and, decide_eq_false_iff_not] at h
    exact Int.not_lt.mp h

/-! ## The loop -/

/--
The loop keeps the queue at the last `limit` messages of the merge with what it has dealt with, `done`,
and `lastMsg` at the last message of the merge.
-/
theorem fillInLoop_spec {snapshot : List Message} (hne : snapshot ≠ []) :
    ∀ (messages done : List Message) (queue : LimitedQueue Message) (lastMsg : Message) (any : Bool),
      InOrder (done ++ missing snapshot messages) →
      ((snapshot ++ (done ++ missing snapshot messages)).map Message.addr).Nodup →
      queue.items = (mergeInto goesBefore snapshot done).rtake queue.limit → 0 < queue.limit →
      (mergeInto goesBefore snapshot done).getLast? = some lastMsg →
      (fillInLoop snapshot (existingMessageIds snapshot) messages queue lastMsg any).1.items
          = (mergeInto goesBefore snapshot (done ++ missing snapshot messages)).rtake queue.limit ∧
        (fillInLoop snapshot (existingMessageIds snapshot) messages queue lastMsg any).1.limit
          = queue.limit := by
  intro messages
  induction messages with
  | nil =>
    intro done queue lastMsg any _ _ hitems _ _
    rw [missing, List.filter_nil, List.append_nil]
    exact ⟨hitems, rfl⟩
  | cons msg rest ih =>
    intro done queue lastMsg any horder hnd hitems hpos hlast
    rw [fillInLoop]
    by_cases hex : msg.id ∈ existingMessageIds snapshot
    · -- the message is present
      have hmiss : missing snapshot (msg :: rest) = missing snapshot rest := by
        rw [missing, List.filter_cons_of_neg (by simpa using hex)]
        rfl
      rw [hmiss] at horder hnd ⊢
      rw [if_pos hex]
      exact ih done queue lastMsg any horder hnd hitems hpos hlast
    · have hmiss : missing snapshot (msg :: rest) = msg :: missing snapshot rest := by
        rw [missing, List.filter_cons_of_pos (by simpa using hex)]
        rfl
      have hcons : done ++ missing snapshot (msg :: rest)
          = (done ++ [msg]) ++ missing snapshot rest := by
        rw [hmiss, List.append_assoc, List.singleton_append]
      rw [hcons] at horder hnd ⊢
      rw [if_neg hex]
      have hsteady : Steady goesBefore (done ++ [msg]) :=
        steady_of_inOrder (List.pairwise_append.mp horder).1
      have hnd' : ((mergeInto goesBefore snapshot done).map Message.addr).Nodup := by
        refine ((mergeInto_perm ..).map _).nodup_iff.mpr (hnd.sublist (List.Sublist.map _ ?_))
        rw [List.append_assoc]
        exact (List.sublist_append_left ..).append_left _
      split
      · -- in front of the first newer message of the snapshot
        next s hfind =>
        obtain ⟨hs, c₁, c₂, rfl, hc₁⟩ := List.find?_eq_some_iff_append.mp hfind
        have hc₁' : ∀ t ∈ c₁, goesBefore msg t = false := fun t ht => by
          simpa [goesBefore, or_iff_not_imp_left] using hc₁ t ht
        obtain ⟨front, hold, hnew⟩ := mergeInto_concat_before hsteady hc₁' hs
        rw [hold] at hitems hlast hnd'
        obtain ⟨hitems', hlimit⟩ := LimitedQueue.insertBefore_window hitems hnd'
        have hlast' : (mergeInto goesBefore (c₁ ++ s :: c₂) (done ++ [msg])).getLast?
            = some lastMsg := by
          rw [hnew, ← hlast, List.getLast?_append, List.getLast?_append, List.getLast?_cons_cons]
        rw [← hnew, ← hlimit] at hitems'
        have hrest := ih (done ++ [msg]) _ lastMsg true horder hnd hitems' (hlimit ▸ hpos) hlast'
        rwa [hlimit] at hrest
      · -- at the end
        next hfind =>
        have hno : ∀ t ∈ snapshot, goesBefore msg t = false := fun t ht => by
          simpa [goesBefore] using List.find?_eq_none.mp hfind t ht
        have hnew := mergeInto_concat_end done hno
        obtain ⟨front, hold⟩ := List.getLast?_eq_some_iff.mp hlast
        rw [hold] at hitems hnew hnd'
        obtain ⟨hitems', hlimit⟩ := LimitedQueue.insertAfter_window (m := msg) hitems hnd' hpos
        have hlast' : (mergeInto goesBefore snapshot (done ++ [msg])).getLast? = some msg := by
          rw [hnew, List.getLast?_concat]
        rw [show front ++ [lastMsg, msg] = front ++ [lastMsg] ++ [msg] by simp, ← hnew,
          ← hlimit] at hitems'
        have hrest := ih (done ++ [msg]) _ msg true horder hnd hitems' (hlimit ▸ hpos) hlast'
        rwa [hlimit] at hrest

theorem fillInMissingMessages_eq {ch : Channel} {lastMsg : Message}
    (hlast : ch.messages.items.getLast? = some lastMsg) (messages : List Message) :
    ch.fillInMissingMessages messages =
      some ({ ch with messages := (fillInLoop ch.messages.items
          (existingMessageIds ch.messages.items) messages ch.messages lastMsg false).1 },
        if (fillInLoop ch.messages.items (existingMessageIds ch.messages.items) messages
            ch.messages lastMsg false).2 then [.filledInMessages messages] else []) := by
  simp only [fillInMissingMessages, getMessageSnapshot, LimitedQueue.getSnapshot_eq, hlast]
  rfl

/-- **Filling in keeps the last `limit` messages of the merge**, when the channel has a message. -/
theorem fillInMissingMessages_spec {ch : Channel} {messages : List Message}
    (hne : ch.messages.items ≠ []) (horder : InOrder messages)
    (hnd : ((ch.messages.items ++ missing ch.messages.items messages).map Message.addr).Nodup) :
    ∃ queue signals, ch.fillInMissingMessages messages
        = some ({ ch with messages := queue }, signals) ∧
      queue.items = (merged ch.messages.items messages).rtake ch.messages.limit ∧
      queue.limit = ch.messages.limit := by
  have hlast := List.getLast?_eq_some_getLast hne
  generalize ch.messages.items.getLast hne = lastMsg at hlast
  have hle := ch.messages.length_items_le
  have hpos : 0 < ch.messages.limit := Nat.lt_of_lt_of_le (List.length_pos_of_ne_nil hne) hle
  have horder' : InOrder ([] ++ missing ch.messages.items messages) :=
    horder.sublist List.filter_sublist
  have hspec := fillInLoop_spec hne messages [] ch.messages lastMsg false horder' hnd
    (by rw [mergeInto_nil_right, rtake_of_length_le hle]) hpos
    (by rw [mergeInto_nil_right]; exact hlast)
  exact ⟨_, _, fillInMissingMessages_eq hlast messages, hspec⟩

/-- Without a message in the channel the call reads past the end of the snapshot. -/
theorem fillInMissingMessages_empty {ch : Channel} (h : ch.messages.items = [])
    (messages : List Message) : ch.fillInMissingMessages messages = none := by
  simp only [fillInMissingMessages, getMessageSnapshot, LimitedQueue.getSnapshot_eq, h]
  rfl

/-! ## Merging history without loss -/

/--
What a merge of history into a channel is to do: `after` is the content afterwards. No id of the
messages is there twice, what was present keeps its order, the order of time is kept, nothing is
missing when everything fits, and otherwise what is left out are the first messages of the merge.
-/
structure HistoryMerged (limit : Nat) (present messages after : List Message) : Prop where
  once : ∀ m ∈ messages, m.id ≠ [] → (after.map Message.id).count m.id ≤ 1
  order : (after.filter fun m => decide (m ∈ present)).Sublist present
  ascending : Ascending present → Ascending after
  complete : present.length + (missing present messages).length ≤ limit →
    ∀ m ∈ missing present messages, m ∈ after
  oldest : ∃ dropped, (dropped ++ after).Perm (present ++ missing present messages) ∧
    present.Sublist (dropped ++ after) ∧ (Ascending present → Ascending (dropped ++ after)) ∧
    (dropped ≠ [] → after.length = limit)

/-- The messages behind a present one once the missing ones are there too. -/
def behindPresent (front : List Message) (s : Message) (back missing : List Message) :
    List Message :=
  back ++ missing.filter fun m => (front ++ [s]).all fun t => !goesBefore m t

/-- The messages behind a missing one: later missing ones, and the present ones from the first on
that is newer. -/
def behindMissing (present : List Message) (m : Message) (back : List Message) : List Message :=
  present.dropWhile (fun t => !goesBefore m t) ++ back

/--
Whenever an id of the messages repeats behind a message, the message falls out, for it has at least
`limit` messages behind it.
-/
structure RepeatsFallOut (limit : Nat) (present messages : List Message) : Prop where
  ofPresent : ∀ front s back, present = front ++ s :: back →
    (∃ m ∈ messages, m.id = s.id ∧ m.id ≠ []) →
    (∃ b ∈ behindPresent front s back (missing present messages), b.id = s.id) →
    limit ≤ (behindPresent front s back (missing present messages)).length
  ofMissing : ∀ front s back, missing present messages = front ++ s :: back → s.id ≠ [] →
    (∃ b ∈ behindMissing present s back, b.id = s.id) →
    limit ≤ (behindMissing present s back).length

theorem merged_perm (present messages : List Message) :
    (merged present messages).Perm (present ++ missing present messages) :=
  mergeInto_perm ..

/-- All but the ids: that holds of every merge. -/
theorem historyMerged_of_once {limit : Nat} {present messages : List Message}
    (horder : InOrder messages)
    (hnd : ((present ++ missing present messages).map Message.addr).Nodup)
    (honce : ∀ m ∈ messages, m.id ≠ [] →
      (((merged present messages).rtake limit).map Message.id).count m.id ≤ 1) :
    HistoryMerged limit present messages ((merged present messages).rtake limit) := by
  have hperm := merged_perm present messages
  have hsub : ((merged present messages).rtake limit).Sublist (merged present messages) :=
    (rtake_suffix _ _).sublist
  have hkeep : present.filter (fun m => decide (m ∈ present)) = present :=
    List.filter_eq_self.mpr fun m hm => by simpa using hm
  have hdrop : (missing present messages).filter (fun m => decide (m ∈ present)) = [] := by
    refine List.filter_eq_nil_iff.mpr fun m hm hin => ?_
    rw [List.map_append] at hnd
    exact (List.nodup_append.mp hnd).2.2 m.addr (List.mem_map_of_mem (by simpa using hin)) m.addr
      (List.mem_map_of_mem hm) rfl
  have hpresent : (merged present messages).filter (fun m => decide (m ∈ present)) = present := by
    have hlen := (hperm.filter fun m => decide (m ∈ present)).length_eq
    rw [List.filter_append, hkeep, hdrop, List.append_nil] at hlen
    have hsub' := (sublist_mergeInto goesBefore present
      (missing present messages)).filter fun m => decide (m ∈ present)
    rw [hkeep] at hsub'
    exact (hsub'.eq_of_length hlen.symm).symm
  refine ⟨honce, ?_, ?_, ?_, ?_⟩
  · have hsub' := hsub.filter fun m => decide (m ∈ present)
    rwa [hpresent] at hsub'
  · intro hasc
    have := ascending_merged hasc horder
    rw [ascending_iff] at this ⊢
    exact this.sublist hsub
  · intro hle m hm
    rw [rtake_of_length_le (by rw [hperm.length_eq, List.length_append]; exact hle)]
    exact hperm.mem_iff.mpr (List.mem_append_right _ hm)
  · have hsplit : (merged present messages).take ((merged present messages).length - limit)
        ++ (merged present messages).rtake limit = merged present messages :=
      List.take_append_drop ..
    refine ⟨_, by rw [hsplit]; exact hperm, ?_, ?_, ?_⟩
    · rw [hsplit]
      exact sublist_mergeInto ..
    · rw [hsplit]
      exact fun hasc => ascending_merged hasc horder
    · intro hne
      have hlen := List.length_pos_of_ne_nil hne
      rw [List.length_take] at hlen
      rw [length_rtake]
      omega

/-- In a list without repetition an element has one place. -/
theorem split_unique {α : Type} {l₁ r₁ l₂ r₂ : List α} {a : α} (hnd : (l₁ ++ a :: r₁).Nodup)
    (h : l₁ ++ a :: r₁ = l₂ ++ a :: r₂) : r₁ = r₂ := by
  have h₁ : a ∉ l₁ := fun hm => (List.nodup_append.mp hnd).2.2 a hm a (List.mem_cons_self ..) rfl
  have h₂ : a ∉ l₂ := fun hm =>
    (List.nodup_append.mp (h ▸ hnd)).2.2 a hm a (List.mem_cons_self ..) rfl
  induction l₁ generalizing l₂ with
  | nil =>
    cases l₂ with
    | nil => exact (List.cons.inj h).2
    | cons b l₂ => exact absurd (List.mem_cons_self ..) ((List.cons.inj h).1 ▸ h₂)
  | cons b l₁ ih =>
    cases l₂ with
    | nil => exact absurd (List.mem_cons_self ..) ((List.cons.inj h).1 ▸ h₁)
    | cons b' l₂ =>
      exact ih hnd.of_cons (List.cons.inj h).2 (fun hm => h₁ (List.mem_cons_of_mem _ hm))
        (fun hm => h₂ (List.mem_cons_of_mem _ hm))

/-- No id is there twice exactly when repeated ids fall out. -/
theorem once_iff {limit : Nat} {present messages : List Message} (horder : InOrder messages)
    (hnd : ((present ++ missing present messages).map Message.addr).Nodup) :
    (∀ m ∈ messages, m.id ≠ [] →
      (((merged present messages).rtake limit).map Message.id).count m.id ≤ 1) ↔
      RepeatsFallOut limit present messages := by
  have hsteady : Steady goesBefore (missing present messages) :=
    steady_of_inOrder (horder.sublist List.filter_sublist)
  have hndm : (merged present messages).Nodup :=
    List.Nodup.of_map _ (((merged_perm ..).map _).nodup_iff.mpr hnd)
  constructor
  · intro honce
    constructor
    · rintro front s back rfl ⟨m, hm, hid, hne⟩ ⟨b, hb, hbs⟩
      obtain ⟨front', hsplit⟩ := exists_eq_of_left front s back hsteady
      have hperm := mergeInto_perm goesBefore back
        ((missing (front ++ s :: back) messages).filter fun m =>
          (front ++ [s]).all fun t => !goesBefore m t)
      have hle := count_map_rtake_le_one.mp (honce m hm hne) front' s _ hsplit hid.symm
        ⟨b, hperm.mem_iff.mpr hb, hbs.trans hid.symm⟩
      rwa [hperm.length_eq] at hle
    · rintro front s back hmiss hne ⟨b, hb, hbs⟩
      have hs : s ∈ messages := by
        have : s ∈ missing present messages := by rw [hmiss]; simp
        exact (List.mem_filter.mp this).1
      obtain ⟨front', hsplit⟩ := exists_eq_of_right present (hmiss ▸ hsteady)
      rw [← hmiss] at hsplit
      have hperm := mergeInto_perm goesBefore
        (present.dropWhile fun t => !goesBefore s t) back
      have hle := count_map_rtake_le_one.mp (honce s hs hne) front' s _ hsplit rfl
        ⟨b, hperm.mem_iff.mpr hb, hbs⟩
      rwa [hperm.length_eq] at hle
  · intro hrep m hm hne
    refine count_map_rtake_le_one.mpr fun front s back hsplit hid hb => ?_
    obtain ⟨b, hb, hbs⟩ := hb
    have hin : s ∈ present ++ missing present messages :=
      (merged_perm ..).mem_iff.mp (by rw [hsplit]; simp)
    rcases List.mem_append.mp hin with hin | hin
    · obtain ⟨c₁, c₂, rfl⟩ := List.append_of_mem hin
      obtain ⟨front', hsplit'⟩ := exists_eq_of_left c₁ s c₂ hsteady
      obtain rfl := split_unique (hsplit ▸ hndm) (hsplit.symm.trans hsplit')
      have hperm := mergeInto_perm goesBefore c₂
        ((missing (c₁ ++ s :: c₂) messages).filter fun m =>
          (c₁ ++ [s]).all fun t => !goesBefore m t)
      rw [hperm.length_eq]
      exact hrep.ofPresent c₁ s c₂ rfl ⟨m, hm, hid.symm, hne⟩
        ⟨b, hperm.mem_iff.mp hb, hbs.trans hid.symm⟩
    · obtain ⟨m₁, m₂, hmiss⟩ := List.append_of_mem hin
      obtain ⟨front', hsplit'⟩ := exists_eq_of_right present (hmiss ▸ hsteady)
      rw [← hmiss] at hsplit'
      obtain rfl := split_unique (hsplit ▸ hndm) (hsplit.symm.trans hsplit')
      have hperm := mergeInto_perm goesBefore
        (present.dropWhile fun t => !goesBefore s t) m₂
      rw [hperm.length_eq]
      exact hrep.ofMissing m₁ s m₂ hmiss (hid ▸ hne) ⟨b, hperm.mem_iff.mp hb, hbs.trans hid.symm⟩

/--
**When history is merged without loss.** For messages in the order of their time, each object in
the channel once, the call does what it is to do exactly when the channel has a message and
repeated ids fall out.
-/
theorem fillInMissingMessages_iff {ch : Channel} {messages : List Message}
    (horder : InOrder messages)
    (hnd : ((ch.messages.items ++ missing ch.messages.items messages).map Message.addr).Nodup) :
    (∃ ch' signals, ch.fillInMissingMessages messages = some (ch', signals) ∧
        HistoryMerged ch.messages.limit ch.messages.items messages ch'.messages.items) ↔
      ch.messages.items ≠ [] ∧ RepeatsFallOut ch.messages.limit ch.messages.items messages := by
  constructor
  · rintro ⟨ch', signals, hfill, hmerged⟩
    have hne : ch.messages.items ≠ [] := fun hnil => by
      rw [fillInMissingMessages_empty hnil] at hfill
      cases hfill
    obtain ⟨queue, signals', hfill', hitems, -⟩ := fillInMissingMessages_spec hne horder hnd
    obtain ⟨rfl, rfl⟩ := Prod.mk.inj (Option.some.inj (hfill'.symm.trans hfill))
    refine ⟨hne, (once_iff horder hnd).mp ?_⟩
    rw [← hitems]
    exact hmerged.once
  · rintro ⟨hne, hrep⟩
    obtain ⟨queue, signals, hfill, hitems, -⟩ := fillInMissingMessages_spec hne horder hnd
    refine ⟨_, signals, hfill, ?_⟩
    show HistoryMerged _ _ _ queue.items
    rw [hitems]
    exact historyMerged_of_once horder hnd ((once_iff horder hnd).mpr hrep)

/-- A channel with one message, and an older and a newer one to fill in. -/
theorem fillInMissingMessages_iff_three :
    let a : Message := ⟨1, ['a'], [], [], 20, 0⟩
    let b : Message := ⟨2, ['b'], [], [], 10, 0⟩
    let c : Message := ⟨3, ['c'], [], [], 30, 0⟩
    let ch : Channel :=
      { Channel.new 3 [] .twitch 0 with messages := ((LimitedQueue.new 3).pushBack a).1 }
    (∃ ch' signals, ch.fillInMissingMessages [b, c] = some (ch', signals) ∧
        HistoryMerged 3 [a] [b, c] ch'.messages.items) ↔
      [a] ≠ [] ∧ RepeatsFallOut 3 [a] [b, c] := by
  intro a b c ch
  have horder : InOrder [b, c] := by simp [InOrder, b, c]
  have hnd : ((ch.messages.items ++ missing ch.messages.items [b, c]).map Message.addr).Nodup := by
    decide
  exact fillInMissingMessages_iff horder hnd

/--
An empty channel is read past its end, and of two new messages with one id both go in.
-/
theorem fillInMissingMessages_loses :
    let a : Message := ⟨1, ['a'], [], [], 20, 0⟩
    let b : Message := ⟨2, ['b'], [], [], 30, 0⟩
    let b' : Message := ⟨3, ['b'], [], [], 30, 0⟩
    let ch : Channel :=
      { Channel.new 1000 [] .twitch 0 with messages := ((LimitedQueue.new 1000).pushBack a).1 }
    ((Channel.new 1000 [] .twitch 0).fillInMissingMessages [a]).isNone ∧
      (ch.fillInMissingMessages [b, b']).map (fun r => r.1.messages.items.map Message.id)
        = some [['a'], ['b'], ['b']] := by
  decide

end Channel

end Dankerino
