import Dankerino.Irc.Irc2

/-!
# The registry of IRC channels

* `Registry` is what a state should be like: one channel for a name, with the server of its id, and
  found on that server. `Parted` is what the end of a channel should do.
* `Regular` is the condition of a step. It leaves out what `getOrAddChannel` does without a server
  when the channel is there already, a name that still begins with `#` when one `#` is taken off, and
  the end of a channel that its server has taken over from an earlier one.
* `registry_iff_regular`: the registry is kept throughout a run exactly by regular steps.
-/

namespace Dankerino

open Infra

namespace Irc

/-! ## What the registry is for -/

/-- What holds between operations. -/
structure Registry (s : Irc) : Prop where
  /-- At most one channel exists for an id and a name. -/
  name_inj : ∀ c ∈ s.live, ∀ c' ∈ s.live, c.serverId = c'.serverId → c.name = c'.name → c = c'
  /-- Its server is the one with the id, if there is one. -/
  server : ∀ c ∈ s.live, c.server_ = (s.servers_.find c.serverId).map IrcServer.ptr
  /-- That server finds it. -/
  found : ∀ c ∈ s.live, ∀ server, s.servers_.find c.serverId = some server →
    server.getChannelOrEmpty s.live c.name = some c

/-- The end of a channel: its server forgets the name and parts. -/
def Parted (s : Irc) (c : IrcChannel) (s' : Irc) : Prop :=
  ∀ server, s.servers_.find c.serverId = some server →
    (∃ server', s'.servers_.find c.serverId = some server' ∧ server'.channels.find c.name = none) ∧
      s'.sent = s.sent ++ [(c.serverId, partLine c.name)]

/-- What one operation should do. -/
def Kept (s : Irc) (e : Event) (s' : Irc) : Prop :=
  Registry s' ∧
    match e with
    | .destroy c => Parted s c s'
    | _ => True

/-- The operations that do it. -/
def Regular (s : Irc) : Event → Prop
  | .insert id => ∀ c ∈ s.live, c.serverId = id → cleanChannelName c.name = c.name
  | .remove _ => True
  | .getOrAddChannel id name =>
    (∀ server, s.servers_.find id = some server →
      cleanChannelName (cleanChannelName name) = cleanChannelName name ∨
        server.getChannelOrEmpty s.live (cleanChannelName name) ≠ none) ∧
    (s.servers_.find id = none → ∀ c ∈ s.live, c.serverId = id → c.name ≠ name)
  | .destroy c =>
    ∀ server, s.servers_.find c.serverId = some server →
      c.destroyed = some ⟨server.ptr, c.name⟩ ∧ c.name ≠ []

/-! ## The invariant of regular operations -/

/-- The channel objects by themselves. -/
structure Objects (live : List IrcChannel) (next : Nat) : Prop where
  number_lt : ∀ c ∈ live, c.number < next
  number_inj : ∀ c ∈ live, ∀ c' ∈ live, c.number = c'.number → c = c'
  name_inj : ∀ c ∈ live, ∀ c' ∈ live, c.serverId = c'.serverId → c.name = c'.name → c = c'
  destroyed : ∀ c ∈ live, ∀ connection, c.destroyed = some connection →
    connection.channelName = c.name ∧ connection.server.id = c.serverId

structure Consistent (s : Irc) : Prop extends Objects s.live s.next where
  server : ∀ c ∈ s.live, c.server_ = (s.servers_.find c.serverId).map IrcServer.ptr
  ptr : ∀ id server, s.servers_.find id = some server → server.ptr.id = id
  found : ∀ c ∈ s.live, ∀ server, s.servers_.find c.serverId = some server →
    cleanChannelName c.name = c.name ∧ server.channels.find c.name = some c.number
  /-- An address in the map of a server is that of its channel of the name, or of none. -/
  entry : ∀ id server, s.servers_.find id = some server → ∀ name number,
    (name, number) ∈ server.channels →
      number < s.next ∧ ∀ c ∈ s.live, c.number = number → c.serverId = id ∧ c.name = name
  abandoned : ∀ id numbers, s.abandonedChannels_.find id = some numbers →
    s.servers_.find id = none ∧ ∀ number ∈ numbers,
      number < s.next ∧ ∀ c ∈ s.live, c.number = number → c.serverId = id
  /-- A channel without a server waits for one. -/
  waiting : ∀ c ∈ s.live, s.servers_.find c.serverId = none →
    ∃ numbers, s.abandonedChannels_.find c.serverId = some numbers ∧ c.number ∈ numbers

theorem consistent_empty : Consistent {} where
  number_lt := by simp
  number_inj := by simp
  name_inj := by simp
  destroyed := by simp
  server := by simp
  ptr := by simp
  found := by simp
  entry := by simp
  abandoned := by simp
  waiting := by simp

theorem lock_eq_some {live : List IrcChannel} {number : Nat} {c : IrcChannel}
    (h : lock live number = some c) : c ∈ live ∧ c.number = number :=
  ⟨List.mem_of_find?_eq_some h, by simpa using List.find?_some h⟩

theorem Objects.lock {live : List IrcChannel} {next : Nat} (h : Objects live next) {c : IrcChannel}
    (hc : c ∈ live) : lock live c.number = some c := by
  cases hlock : Irc.lock live c.number with
  | none => simpa using List.find?_eq_none.mp hlock c hc
  | some c' =>
    obtain ⟨hc', hnumber⟩ := lock_eq_some hlock
    rw [h.number_inj c' hc' c hc hnumber]

theorem Consistent.registry {s : Irc} (h : Consistent s) : Registry s where
  name_inj := h.name_inj
  server := h.server
  found := by
    intro c hc server hserver
    obtain ⟨hclean, hfind⟩ := h.found c hc server hserver
    unfold IrcServer.getChannelOrEmpty
    rw [hclean, hfind]
    exact h.lock hc

/-! ## `setServer` -/

section SetServer

variable (numbers : List Nat) (server : Option ServerPtr) (c : IrcChannel)

@[simp]
theorem number_setServer : (c.setServer numbers server).number = c.number := by
  unfold IrcChannel.setServer
  split <;> rfl

@[simp]
theorem serverId_setServer : (c.setServer numbers server).serverId = c.serverId := by
  unfold IrcChannel.setServer
  split <;> rfl

@[simp]
theorem name_setServer : (c.setServer numbers server).name = c.name := by
  unfold IrcChannel.setServer
  split <;> rfl

@[simp]
theorem destroyed_setServer : (c.setServer numbers server).destroyed = c.destroyed := by
  unfold IrcChannel.setServer
  split <;> rfl

variable {numbers c}

theorem server_setServer_of_mem (h : c.number ∈ numbers) :
    (c.setServer numbers server).server_ = server := by
  unfold IrcChannel.setServer
  rw [if_pos h]

theorem server_setServer_of_notMem (h : c.number ∉ numbers) :
    (c.setServer numbers server).server_ = c.server_ := by
  unfold IrcChannel.setServer
  rw [if_neg h]

end SetServer

theorem mem_setServers {numbers : List Nat} {server : Option ServerPtr} {c' : IrcChannel}
    {live : List IrcChannel} :
    c' ∈ setServers numbers server live ↔ ∃ c ∈ live, c.setServer numbers server = c' :=
  List.mem_map

theorem Objects.setServers {live : List IrcChannel} {next : Nat} (h : Objects live next)
    (numbers : List Nat) (server : Option ServerPtr) :
    Objects (setServers numbers server live) next := by
  refine ⟨?_, ?_, ?_, ?_⟩
  · intro c' hc'
    obtain ⟨c, hc, rfl⟩ := mem_setServers.mp hc'
    simpa using h.number_lt c hc
  · intro c₁' hc₁' c₂' hc₂' hnumber
    obtain ⟨c₁, hc₁, rfl⟩ := mem_setServers.mp hc₁'
    obtain ⟨c₂, hc₂, rfl⟩ := mem_setServers.mp hc₂'
    rw [h.number_inj c₁ hc₁ c₂ hc₂ (by simpa using hnumber)]
  · intro c₁' hc₁' c₂' hc₂' hid hname
    obtain ⟨c₁, hc₁, rfl⟩ := mem_setServers.mp hc₁'
    obtain ⟨c₂, hc₂, rfl⟩ := mem_setServers.mp hc₂'
    rw [h.name_inj c₁ hc₁ c₂ hc₂ (by simpa using hid) (by simpa using hname)]
  · intro c' hc'
    obtain ⟨c, hc, rfl⟩ := mem_setServers.mp hc'
    simpa using h.destroyed c hc

/-- What holds of a channel of a number, whatever its server is. -/
theorem forall_setServers {live : List IrcChannel} {P : Int → QString → Prop} {number : Nat}
    (h : ∀ c ∈ live, c.number = number → P c.serverId c.name) (numbers : List Nat)
    (server : Option ServerPtr) :
    ∀ c ∈ Irc.setServers numbers server live, c.number = number → P c.serverId c.name := by
  intro c' hc' hnumber
  obtain ⟨c, hc, rfl⟩ := mem_setServers.mp hc'
  simpa using h c hc (by simpa using hnumber)

/-! ## Removing a server -/

theorem IrcServer.mem_getChannels {server : IrcServer} {number : Nat} :
    number ∈ server.getChannels ↔ ∃ name, (name, number) ∈ server.channels := by
  unfold IrcServer.getChannels
  constructor
  · intro h
    obtain ⟨⟨name, number'⟩, hmem, rfl⟩ := List.mem_map.mp h
    exact ⟨name, hmem⟩
  · rintro ⟨name, hmem⟩
    exact List.mem_map_of_mem (f := Prod.snd) hmem

theorem Consistent.mem_getChannels {s : Irc} (h : Consistent s) {c : IrcChannel} (hc : c ∈ s.live)
    {id : Int} {server : IrcServer} (hserver : s.servers_.find id = some server) :
    c.number ∈ server.getChannels ↔ c.serverId = id := by
  rw [IrcServer.mem_getChannels]
  constructor
  · rintro ⟨name, hmem⟩
    exact ((h.entry id server hserver name c.number hmem).2 c hc rfl).1
  · rintro rfl
    exact ⟨c.name, OrderedMap.mem_of_find (h.found c hc server hserver).2⟩

theorem Consistent.itemRemoved {s : Irc} (h : Consistent s) (id : Int) :
    Consistent (s.itemRemoved id) := by
  unfold Irc.itemRemoved
  cases hserver : s.servers_.find id with
  | none => exact h
  | some server =>
    have hmem : ∀ {c : IrcChannel}, c ∈ s.live → (c.number ∈ server.getChannels ↔ c.serverId = id) :=
      fun hc => h.mem_getChannels hc hserver
    -- what is left of the servers
    have hleft : ∀ {id' : Int} {server' : IrcServer},
        (s.servers_.erase id).find id' = some server' → id' ≠ id ∧ s.servers_.find id' = some server' := by
      intro id' server' hfind
      rw [OrderedMap.find_erase] at hfind
      split_ifs at hfind with hid
      exact ⟨hid, hfind⟩
    refine ⟨h.toObjects.setServers _ _, ?_, ?_, ?_, ?_, ?_, ?_⟩
    · intro c' hc'
      obtain ⟨c, hc, rfl⟩ := mem_setServers.mp hc'
      simp only [serverId_setServer, OrderedMap.find_erase]
      by_cases hid : c.serverId = id
      · rw [server_setServer_of_mem _ ((hmem hc).mpr hid), if_pos hid]
        rfl
      · rw [server_setServer_of_notMem _ (fun hin => hid ((hmem hc).mp hin)), if_neg hid]
        exact h.server c hc
    · intro id' server' hfind
      exact h.ptr id' server' (hleft hfind).2
    · intro c' hc' server' hfind
      obtain ⟨c, hc, rfl⟩ := mem_setServers.mp hc'
      rw [serverId_setServer] at hfind
      simpa using h.found c hc server' (hleft hfind).2
    · intro id' server' hfind name number hentry
      obtain ⟨hlt, hlive⟩ := h.entry id' server' (hleft hfind).2 name number hentry
      exact ⟨hlt, forall_setServers (P := fun id'' name' => id'' = id' ∧ name' = name) hlive _ _⟩
    · intro id' numbers hfind
      rw [OrderedMap.find_insert] at hfind
      split_ifs at hfind with hid
      · subst hid
        obtain rfl := Option.some.inj hfind
        refine ⟨by rw [OrderedMap.find_erase, if_pos rfl], fun number hnumber => ?_⟩
        obtain ⟨name, hentry⟩ := IrcServer.mem_getChannels.mp hnumber
        obtain ⟨hlt, hlive⟩ := h.entry _ server hserver name number hentry
        exact ⟨hlt, forall_setServers (P := fun id' _ => id' = _) (fun c hc heq => (hlive c hc heq).1) _ _⟩
      · obtain ⟨hnone, hnumbers⟩ := h.abandoned id' numbers hfind
        refine ⟨by rw [OrderedMap.find_erase, if_neg hid, hnone], fun number hnumber => ?_⟩
        obtain ⟨hlt, hlive⟩ := hnumbers number hnumber
        exact ⟨hlt, forall_setServers (P := fun id'' _ => id'' = id') hlive _ _⟩
    · intro c' hc' hnone
      obtain ⟨c, hc, rfl⟩ := mem_setServers.mp hc'
      simp only [serverId_setServer, number_setServer] at hnone ⊢
      by_cases hid : c.serverId = id
      · exact ⟨_, by rw [OrderedMap.find_insert, if_pos hid], (hmem hc).mpr hid⟩
      · rw [OrderedMap.find_erase, if_neg hid] at hnone
        rw [OrderedMap.find_insert, if_neg hid]
        exact h.waiting c hc hnone

/-! ## Inserting a server -/

/-- An entry that was restored is the name of a channel. -/
theorem restore_entry {live : List IrcChannel} {name : QString} {number : Nat} {numbers : List Nat}
    {channels : OrderedMap QString Nat} (h : (name, number) ∈ restore live numbers channels) :
    (name, number) ∈ channels ∨
      number ∈ numbers ∧ ∃ c ∈ live, c.number = number ∧ c.name = name := by
  induction numbers generalizing channels with
  | nil => exact .inl h
  | cons weak numbers ih =>
    unfold restore at h
    cases hlock : lock live weak with
    | none =>
      rw [hlock] at h
      exact (ih h).imp_right fun ⟨hmem, hc⟩ => ⟨List.mem_cons_of_mem _ hmem, hc⟩
    | some c =>
      rw [hlock] at h
      rcases ih h with hmem | ⟨hmem, hc⟩
      · rcases OrderedMap.mem_of_mem_insert hmem with heq | hmem
        · obtain ⟨rfl, rfl⟩ := Prod.mk.inj heq
          obtain ⟨hc, hnumber⟩ := lock_eq_some hlock
          exact .inr ⟨List.mem_cons_self, c, hc, hnumber, rfl⟩
        · exact .inl hmem
      · exact .inr ⟨List.mem_cons_of_mem _ hmem, hc⟩

/-- A channel whose name no other restored channel has is found. -/
theorem restore_find {live : List IrcChannel} {c : IrcChannel} (hc : lock live c.number = some c)
    {numbers : List Nat} {channels : OrderedMap QString Nat}
    (hname : ∀ number ∈ numbers, ∀ c', lock live number = some c' → c'.name = c.name → number = c.number)
    (h : c.number ∈ numbers ∨ channels.find c.name = some c.number) :
    (restore live numbers channels).find c.name = some c.number := by
  induction numbers generalizing channels with
  | nil => exact h.resolve_left List.not_mem_nil
  | cons weak numbers ih =>
    have hname' := fun number hnumber => hname number (List.mem_cons_of_mem _ hnumber)
    unfold restore
    cases hlock : lock live weak with
    | none =>
      refine ih hname' (h.imp_left fun hmem => ?_)
      rcases List.mem_cons.mp hmem with rfl | hmem
      · rw [hc] at hlock
        exact nomatch hlock
      · exact hmem
    | some c' =>
      refine ih hname' ?_
      rw [OrderedMap.find_insert]
      by_cases heq : c.name = c'.name
      · rw [if_pos heq, hname weak List.mem_cons_self c' hlock heq.symm]
        exact .inr rfl
      · rw [if_neg heq]
        refine h.imp_left fun hmem => (List.mem_cons.mp hmem).resolve_left ?_
        rintro rfl
        rw [hc] at hlock
        exact heq (congrArg IrcChannel.name (Option.some.inj hlock))

/-- The channels without a server that wait for the id. -/
theorem Consistent.mem_abandoned {s : Irc} (h : Consistent s) {c : IrcChannel} (hc : c ∈ s.live)
    {id : Int} {numbers : List Nat} (hnumbers : s.abandonedChannels_.find id = some numbers) :
    c.number ∈ numbers ↔ c.serverId = id := by
  obtain ⟨hnone, hlive⟩ := h.abandoned id numbers hnumbers
  constructor
  · intro hmem
    exact (hlive c.number hmem).2 c hc rfl
  · rintro rfl
    obtain ⟨numbers', hnumbers', hmem⟩ := h.waiting c hc hnone
    rw [hnumbers] at hnumbers'
    rwa [Option.some.inj hnumbers']

/-- What the servers are after one has been put into the map. -/
theorem find_servers {servers : OrderedMap Int IrcServer} {id id' : Int} {server server' : IrcServer}
    (h : (servers.insert id server).find id' = some server') :
    id' = id ∧ server' = server ∨ id' ≠ id ∧ servers.find id' = some server' := by
  rw [OrderedMap.find_insert] at h
  split_ifs at h with hid
  · exact .inl ⟨hid, (Option.some.inj h).symm⟩
  · exact .inr ⟨hid, h⟩

theorem Objects.mono {live : List IrcChannel} {next next' : Nat} (h : Objects live next)
    (hle : next ≤ next') : Objects live next' :=
  ⟨fun c hc => Nat.lt_of_lt_of_le (h.number_lt c hc) hle, h.number_inj, h.name_inj, h.destroyed⟩

/-- A server that takes over the channels that wait for it. -/
theorem Consistent.adopt {s : Irc} (h : Consistent s) {id : Int} {numbers : List Nat}
    (hnumbers : s.abandonedChannels_.find id = some numbers)
    (hclean : ∀ c ∈ s.live, c.serverId = id → cleanChannelName c.name = c.name) :
    Consistent (s.itemInserted id) := by
  have hmem : ∀ {c : IrcChannel}, c ∈ s.live → (c.number ∈ numbers ↔ c.serverId = id) :=
    fun hc => h.mem_abandoned hc hnumbers
  have hnext : ∀ {number : Nat}, number < s.next → number < s.next + 1 := Nat.lt_succ_of_lt
  unfold Irc.itemInserted
  rw [hnumbers]
  refine ⟨(h.toObjects.setServers _ _).mono (Nat.le_succ _), ?_, ?_, ?_, ?_, ?_, ?_⟩
  · intro c' hc'
    obtain ⟨c, hc, rfl⟩ := mem_setServers.mp hc'
    simp only [serverId_setServer, OrderedMap.find_insert]
    by_cases hid : c.serverId = id
    · rw [server_setServer_of_mem _ ((hmem hc).mpr hid), if_pos hid]
      rfl
    · rw [server_setServer_of_notMem _ (fun hin => hid ((hmem hc).mp hin)), if_neg hid]
      exact h.server c hc
  · intro id' server' hfind
    rcases find_servers hfind with ⟨rfl, rfl⟩ | ⟨-, hfind⟩
    · rfl
    · exact h.ptr id' server' hfind
  · intro c' hc' server' hfind
    obtain ⟨c, hc, rfl⟩ := mem_setServers.mp hc'
    rw [serverId_setServer] at hfind
    rw [name_setServer, number_setServer]
    rcases find_servers hfind with ⟨hid, rfl⟩ | ⟨-, hfind⟩
    · refine ⟨hclean c hc hid, restore_find (h.toObjects.lock hc) ?_ (.inl ((hmem hc).mpr hid))⟩
      intro number hnumber c' hlock hname
      obtain ⟨hc', rfl⟩ := lock_eq_some hlock
      rw [h.name_inj c' hc' c hc (((hmem hc').mp hnumber).trans hid.symm) hname]
    · exact h.found c hc server' hfind
  · intro id' server' hfind name number hentry
    rcases find_servers hfind with ⟨rfl, rfl⟩ | ⟨-, hfind⟩
    · obtain ⟨hin, c, hc, rfl, rfl⟩ := (restore_entry hentry).resolve_left List.not_mem_nil
      refine ⟨hnext (h.number_lt c hc),
        forall_setServers (P := fun id'' name' => id'' = id' ∧ name' = c.name) ?_ _ _⟩
      intro c' hc' hnumber
      obtain rfl := h.number_inj c' hc' c hc hnumber
      exact ⟨(hmem hc').mp hin, rfl⟩
    · obtain ⟨hlt, hlive⟩ := h.entry id' server' hfind name number hentry
      exact ⟨hnext hlt,
        forall_setServers (P := fun id'' name' => id'' = id' ∧ name' = name) hlive _ _⟩
  · intro id' numbers' hfind
    rw [OrderedMap.find_erase] at hfind
    split_ifs at hfind with hid
    obtain ⟨hnone, hall⟩ := h.abandoned id' numbers' hfind
    refine ⟨by rw [OrderedMap.find_insert, if_neg hid, hnone], fun number hnumber => ?_⟩
    obtain ⟨hlt, hlive⟩ := hall number hnumber
    exact ⟨hnext hlt, forall_setServers (P := fun id'' _ => id'' = id') hlive _ _⟩
  · intro c' hc' hnone
    obtain ⟨c, hc, rfl⟩ := mem_setServers.mp hc'
    simp only [serverId_setServer, number_setServer, OrderedMap.find_insert] at hnone ⊢
    split_ifs at hnone with hid
    rw [OrderedMap.find_erase, if_neg hid]
    exact h.waiting c hc hnone

theorem Consistent.itemInserted {s : Irc} (h : Consistent s) {id : Int}
    (hfree : s.servers_.find id = none)
    (hclean : ∀ c ∈ s.live, c.serverId = id → cleanChannelName c.name = c.name) :
    Consistent (s.itemInserted id) := by
  cases hnumbers : s.abandonedChannels_.find id with
  | some numbers => exact h.adopt hnumbers hclean
  | none =>
    -- no channel waits for the server
    have hother : ∀ c ∈ s.live, c.serverId ≠ id := by
      rintro c hc rfl
      obtain ⟨numbers, hsome, -⟩ := h.waiting c hc hfree
      rw [hnumbers] at hsome
      exact nomatch hsome
    unfold Irc.itemInserted
    rw [hnumbers]
    refine ⟨h.toObjects.mono (Nat.le_succ _), ?_, ?_, ?_, ?_, ?_, ?_⟩
    · intro c hc
      rw [OrderedMap.find_insert, if_neg (hother c hc)]
      exact h.server c hc
    · intro id' server' hfind
      rcases find_servers hfind with ⟨rfl, rfl⟩ | ⟨-, hfind⟩
      · rfl
      · exact h.ptr id' server' hfind
    · intro c hc server' hfind
      rcases find_servers hfind with ⟨hid, -⟩ | ⟨-, hfind⟩
      · exact absurd hid (hother c hc)
      · exact h.found c hc server' hfind
    · intro id' server' hfind name number hentry
      rcases find_servers hfind with ⟨-, rfl⟩ | ⟨-, hfind⟩
      · exact absurd hentry List.not_mem_nil
      · obtain ⟨hlt, hlive⟩ := h.entry id' server' hfind name number hentry
        exact ⟨Nat.lt_succ_of_lt hlt, hlive⟩
    · intro id' numbers hfind
      obtain ⟨hnone, hall⟩ := h.abandoned id' numbers hfind
      have hid : id' ≠ id := by
        rintro rfl
        rw [hnumbers] at hfind
        exact nomatch hfind
      refine ⟨by rw [OrderedMap.find_insert, if_neg hid, hnone], fun number hnumber => ?_⟩
      obtain ⟨hlt, hlive⟩ := hall number hnumber
      exact ⟨Nat.lt_succ_of_lt hlt, hlive⟩
    · intro c hc hnone
      rw [OrderedMap.find_insert, if_neg (hother c hc)] at hnone
      exact h.waiting c hc hnone

/-! ## Adding a channel -/

theorem Objects.append {live : List IrcChannel} {next : Nat} (h : Objects live next) {c : IrcChannel}
    (hnumber : c.number = next) (hname : ∀ c' ∈ live, c'.serverId = c.serverId → c'.name ≠ c.name)
    (hdestroyed : ∀ connection, c.destroyed = some connection →
      connection.channelName = c.name ∧ connection.server.id = c.serverId) :
    Objects (live ++ [c]) (next + 1) := by
  refine ⟨?_, ?_, ?_, ?_⟩
  · intro c' hc'
    rcases List.mem_append.mp hc' with hc' | hc'
    · exact Nat.lt_succ_of_lt (h.number_lt c' hc')
    · rw [List.mem_singleton.mp hc', hnumber]
      exact Nat.lt_succ_self next
  · intro c₁ hc₁ c₂ hc₂ heq
    rcases List.mem_append.mp hc₁ with hl₁ | hn₁ <;> rcases List.mem_append.mp hc₂ with hl₂ | hn₂
    · exact h.number_inj c₁ hl₁ c₂ hl₂ heq
    · have hlt := h.number_lt c₁ hl₁
      rw [heq, List.mem_singleton.mp hn₂, hnumber] at hlt
      exact absurd hlt (Nat.lt_irrefl next)
    · have hlt := h.number_lt c₂ hl₂
      rw [← heq, List.mem_singleton.mp hn₁, hnumber] at hlt
      exact absurd hlt (Nat.lt_irrefl next)
    · rw [List.mem_singleton.mp hn₁, List.mem_singleton.mp hn₂]
  · intro c₁ hc₁ c₂ hc₂ hid heq
    rcases List.mem_append.mp hc₁ with hl₁ | hn₁ <;> rcases List.mem_append.mp hc₂ with hl₂ | hn₂
    · exact h.name_inj c₁ hl₁ c₂ hl₂ hid heq
    · obtain rfl := List.mem_singleton.mp hn₂
      exact absurd heq (hname c₁ hl₁ hid)
    · obtain rfl := List.mem_singleton.mp hn₁
      exact absurd heq.symm (hname c₂ hl₂ hid.symm)
    · rw [List.mem_singleton.mp hn₁, List.mem_singleton.mp hn₂]
  · intro c' hc'
    rcases List.mem_append.mp hc' with hc' | hc'
    · exact h.destroyed c' hc'
    · obtain rfl := List.mem_singleton.mp hc'
      exact hdestroyed

/-- A new channel has no number that was given out before. -/
theorem forall_append {live : List IrcChannel} {next number : Nat} {P : IrcChannel → Prop}
    (hlt : number < next) (h : ∀ c ∈ live, c.number = number → P c) {c : IrcChannel}
    (hnumber : c.number = next) : ∀ c' ∈ live ++ [c], c'.number = number → P c' := by
  intro c' hc' heq
  rcases List.mem_append.mp hc' with hc' | hc'
  · exact h c' hc' heq
  · rw [List.mem_singleton.mp hc', hnumber] at heq
    exact absurd heq (Nat.ne_of_gt hlt)

/-- A channel that is made while there is no server. -/
theorem Consistent.addAbandoned {s : Irc} (h : Consistent s) {id : Int} {name : QString}
    (hnone : s.servers_.find id = none) (hname : ∀ c ∈ s.live, c.serverId = id → c.name ≠ name) :
    Consistent (s.getOrAddChannel id name) := by
  unfold Irc.getOrAddChannel
  rw [hnone]
  refine ⟨h.toObjects.append rfl hname (fun _ hsome => nomatch hsome), ?_, h.ptr, ?_, ?_, ?_, ?_⟩
  · intro c hc
    rcases List.mem_append.mp hc with hc | hc
    · exact h.server c hc
    · obtain rfl := List.mem_singleton.mp hc
      rw [hnone]
      rfl
  · intro c hc server hfind
    rcases List.mem_append.mp hc with hc | hc
    · exact h.found c hc server hfind
    · obtain rfl := List.mem_singleton.mp hc
      rw [hnone] at hfind
      exact nomatch hfind
  · intro id' server hfind name' number hentry
    obtain ⟨hlt, hlive⟩ := h.entry id' server hfind name' number hentry
    exact ⟨Nat.lt_succ_of_lt hlt, forall_append hlt hlive rfl⟩
  · intro id' numbers hfind
    rw [OrderedMap.find_insert] at hfind
    split_ifs at hfind with hid
    · subst hid
      obtain rfl := Option.some.inj hfind
      refine ⟨hnone, fun number hnumber => ?_⟩
      rcases List.mem_append.mp hnumber with hnumber | hnumber
      · cases hnumbers : s.abandonedChannels_.find id' with
        | none =>
          rw [hnumbers] at hnumber
          exact nomatch hnumber
        | some numbers =>
          rw [hnumbers] at hnumber
          obtain ⟨hlt, hlive⟩ := (h.abandoned id' numbers hnumbers).2 number hnumber
          exact ⟨Nat.lt_succ_of_lt hlt, forall_append hlt hlive rfl⟩
      · obtain rfl := List.mem_singleton.mp hnumber
        refine ⟨Nat.lt_succ_self _, fun c hc heq => ?_⟩
        rcases List.mem_append.mp hc with hc | hc
        · exact absurd heq (Nat.ne_of_lt (h.number_lt c hc))
        · rw [List.mem_singleton.mp hc]
    · obtain ⟨hnone', hall⟩ := h.abandoned id' numbers hfind
      refine ⟨hnone', fun number hnumber => ?_⟩
      obtain ⟨hlt, hlive⟩ := hall number hnumber
      exact ⟨Nat.lt_succ_of_lt hlt, forall_append hlt hlive rfl⟩
  · intro c hc hfind
    rw [OrderedMap.find_insert]
    rcases List.mem_append.mp hc with hc | hc
    · obtain ⟨numbers, hnumbers, hmem⟩ := h.waiting c hc hfind
      by_cases hid : c.serverId = id
      · rw [if_pos hid, ← hid, hnumbers]
        exact ⟨_, rfl, List.mem_append_left _ hmem⟩
      · rw [if_neg hid]
        exact ⟨numbers, hnumbers, hmem⟩
    · obtain rfl := List.mem_singleton.mp hc
      rw [if_pos rfl]
      exact ⟨_, rfl, List.mem_append_right _ List.mem_cons_self⟩

/-- A channel that its server makes. -/
theorem Consistent.serverGetOrAddChannel {s : Irc} (h : Consistent s) {id : Int} {name : QString}
    {server : IrcServer} (hserver : s.servers_.find id = some server)
    (hclean : cleanChannelName (cleanChannelName name) = cleanChannelName name ∨
      server.getChannelOrEmpty s.live (cleanChannelName name) ≠ none) :
    Consistent (Irc.serverGetOrAddChannel server id name s) := by
  unfold Irc.serverGetOrAddChannel
  cases hfound : server.getChannelOrEmpty s.live (cleanChannelName name) with
  | some c => simpa [hfound] using h
  | none =>
    have hclean := hclean.resolve_right fun hne => hne hfound
    have hptr := h.ptr id server hserver
    -- a channel of the name would have been found
    have hname : ∀ c ∈ s.live, c.serverId = id → c.name ≠ cleanChannelName name := by
      rintro c hc rfl hname
      have hget := h.registry.found c hc server hserver
      rw [hname, hfound] at hget
      exact nomatch hget
    simp only [hfound]
    refine ⟨h.toObjects.append rfl hname ?_, ?_, ?_, ?_, ?_, ?_, ?_⟩
    · rintro connection hconnection
      obtain rfl := Option.some.inj hconnection
      exact ⟨rfl, hptr⟩
    · intro c hc
      rw [OrderedMap.find_insert]
      rcases List.mem_append.mp hc with hc | hc
      · have hold := h.server c hc
        by_cases hid : c.serverId = id
        · rw [if_pos hid, hold, hid, hserver]
          rfl
        · rw [if_neg hid, hold]
      · obtain rfl := List.mem_singleton.mp hc
        rw [if_pos rfl]
        rfl
    · intro id' server' hfind
      rcases find_servers hfind with ⟨rfl, rfl⟩ | ⟨-, hfind⟩
      · exact hptr
      · exact h.ptr id' server' hfind
    · intro c hc server' hfind
      rcases List.mem_append.mp hc with hc | hc
      · rcases find_servers hfind with ⟨hid, rfl⟩ | ⟨-, hfind⟩
        · obtain ⟨hc', hold⟩ := h.found c hc server (hid ▸ hserver)
          refine ⟨hc', ?_⟩
          rw [OrderedMap.find_insert, if_neg (hname c hc hid), hold]
        · exact h.found c hc server' hfind
      · obtain rfl := List.mem_singleton.mp hc
        rcases find_servers hfind with ⟨-, rfl⟩ | ⟨hid, -⟩
        · refine ⟨hclean, ?_⟩
          rw [OrderedMap.find_insert, if_pos rfl]
        · exact absurd rfl hid
    · intro id' server' hfind name' number hentry
      have hold : ∀ {server'' : IrcServer}, s.servers_.find id' = some server'' →
          (name', number) ∈ server''.channels → ∀ {new : IrcChannel}, new.number = s.next →
          number < s.next + 1 ∧
            ∀ c ∈ s.live ++ [new], c.number = number → c.serverId = id' ∧ c.name = name' := by
        intro server'' hfind hentry new hnew
        obtain ⟨hlt, hlive⟩ := h.entry id' server'' hfind name' number hentry
        exact ⟨Nat.lt_succ_of_lt hlt, forall_append hlt hlive hnew⟩
      rcases find_servers hfind with ⟨rfl, rfl⟩ | ⟨-, hfind⟩
      · rcases OrderedMap.mem_of_mem_insert hentry with heq | hentry
        · obtain ⟨rfl, rfl⟩ := Prod.mk.inj heq
          refine ⟨Nat.lt_succ_self _, fun c hc heq => ?_⟩
          rcases List.mem_append.mp hc with hc | hc
          · exact absurd heq (Nat.ne_of_lt (h.number_lt c hc))
          · obtain rfl := List.mem_singleton.mp hc
            exact ⟨rfl, rfl⟩
        · exact hold hserver hentry rfl
      · exact hold hfind hentry rfl
    · intro id' numbers hfind
      obtain ⟨hnone, hall⟩ := h.abandoned id' numbers hfind
      have hid : id' ≠ id := by
        rintro rfl
        rw [hserver] at hnone
        exact nomatch hnone
      refine ⟨by rw [OrderedMap.find_insert, if_neg hid, hnone], fun number hnumber => ?_⟩
      obtain ⟨hlt, hlive⟩ := hall number hnumber
      exact ⟨Nat.lt_succ_of_lt hlt, forall_append hlt hlive rfl⟩
    · intro c hc hnone
      rw [OrderedMap.find_insert] at hnone
      split_ifs at hnone with hid
      rcases List.mem_append.mp hc with hc | hc
      · exact h.waiting c hc hnone
      · obtain rfl := List.mem_singleton.mp hc
        exact absurd rfl hid

/-! ## The end of a channel -/

/-- What the lambda does, if its server is still there. -/
theorem onDestroyed_cases (connection : DestroyedConnection) (s : Irc) :
    (onDestroyed connection s = s ∧
      ∀ server, s.servers_.find connection.server.id = some server → server.ptr ≠ connection.server) ∨
    ∃ server, s.servers_.find connection.server.id = some server ∧ server.ptr = connection.server ∧
      onDestroyed connection s =
        { s with
          servers_ := s.servers_.insert connection.server.id
            { server with channels := server.channels.erase connection.channelName }
          sent :=
            if connection.channelName = [] then s.sent
            else s.sent ++ [(connection.server.id, partLine connection.channelName)] } := by
  unfold onDestroyed
  cases hserver : s.servers_.find connection.server.id with
  | none => exact .inl ⟨rfl, fun _ hsome => nomatch hsome⟩
  | some server =>
    by_cases hptr : server.ptr = connection.server
    · refine .inr ⟨server, rfl, hptr, ?_⟩
      dsimp only
      rw [if_neg (not_not.mpr hptr)]
      by_cases hempty : connection.channelName = []
      · rw [if_pos (List.length_eq_zero_iff.mpr hempty), if_pos hempty]
      · rw [if_neg (fun h0 => hempty (List.length_eq_zero_iff.mp h0)), if_neg hempty]
    · refine .inl ⟨if_pos hptr, ?_⟩
      rintro server' hserver'
      obtain rfl := Option.some.inj hserver'
      exact hptr

theorem Objects.filter {live : List IrcChannel} {next : Nat} (h : Objects live next)
    (p : IrcChannel → Bool) : Objects (live.filter p) next :=
  ⟨fun c hc => h.number_lt c (List.mem_of_mem_filter hc),
    fun c hc c' hc' => h.number_inj c (List.mem_of_mem_filter hc) c' (List.mem_of_mem_filter hc'),
    fun c hc c' hc' => h.name_inj c (List.mem_of_mem_filter hc) c' (List.mem_of_mem_filter hc'),
    fun c hc => h.destroyed c (List.mem_of_mem_filter hc)⟩

/-- With fewer channels, the addresses that are left in the maps are those of none. -/
theorem Consistent.filter {s : Irc} (h : Consistent s) (p : IrcChannel → Bool) :
    Consistent { s with live := s.live.filter p } := by
  refine ⟨h.toObjects.filter p, ?_, h.ptr, ?_, ?_, ?_, ?_⟩
  · exact fun c hc => h.server c (List.mem_of_mem_filter hc)
  · exact fun c hc => h.found c (List.mem_of_mem_filter hc)
  · intro id server hserver name number hentry
    obtain ⟨hlt, hlive⟩ := h.entry id server hserver name number hentry
    exact ⟨hlt, fun c hc => hlive c (List.mem_of_mem_filter hc)⟩
  · intro id numbers hnumbers
    obtain ⟨hnone, hall⟩ := h.abandoned id numbers hnumbers
    exact ⟨hnone, fun number hnumber =>
      ⟨(hall number hnumber).1, fun c hc => (hall number hnumber).2 c (List.mem_of_mem_filter hc)⟩⟩
  · exact fun c hc => h.waiting c (List.mem_of_mem_filter hc)

theorem Consistent.onDestroyed {s : Irc} (h : Consistent s) {connection : DestroyedConnection}
    (hgone : ∀ c ∈ s.live, c.serverId = connection.server.id → c.name ≠ connection.channelName) :
    Consistent (onDestroyed connection s) := by
  rcases onDestroyed_cases connection s with ⟨heq, -⟩ | ⟨server, hserver, hptr, heq⟩
  · rw [heq]
    exact h
  · rw [heq]
    refine ⟨h.toObjects, ?_, ?_, ?_, ?_, ?_, ?_⟩
    · intro c hc
      have hold := h.server c hc
      rw [OrderedMap.find_insert]
      by_cases hid : c.serverId = connection.server.id
      · rw [if_pos hid, hold, hid, hserver]
        rfl
      · rw [if_neg hid, hold]
    · intro id' server' hfind
      rcases find_servers hfind with ⟨rfl, rfl⟩ | ⟨-, hfind⟩
      · exact h.ptr _ server hserver
      · exact h.ptr id' server' hfind
    · intro c hc server' hfind
      rcases find_servers hfind with ⟨hid, rfl⟩ | ⟨-, hfind⟩
      · obtain ⟨hclean, hold⟩ := h.found c hc server (hid ▸ hserver)
        refine ⟨hclean, ?_⟩
        rw [OrderedMap.find_erase, if_neg (hgone c hc hid), hold]
      · exact h.found c hc server' hfind
    · intro id' server' hfind name number hentry
      rcases find_servers hfind with ⟨rfl, rfl⟩ | ⟨-, hfind⟩
      · exact h.entry _ server hserver name number (List.mem_of_mem_filter hentry)
      · exact h.entry id' server' hfind name number hentry
    · intro id' numbers hfind
      obtain ⟨hnone, hall⟩ := h.abandoned id' numbers hfind
      have hid : id' ≠ connection.server.id := by
        rintro rfl
        rw [hserver] at hnone
        exact nomatch hnone
      exact ⟨by rw [OrderedMap.find_insert, if_neg hid, hnone], hall⟩
    · intro c hc hnone
      rw [OrderedMap.find_insert] at hnone
      split_ifs at hnone
      exact h.waiting c hc hnone

theorem Consistent.destroy {s : Irc} (h : Consistent s) {c : IrcChannel} (hc : c ∈ s.live) :
    Consistent (s.destroy c) := by
  have hfilter := h.filter (·.number != c.number)
  unfold Irc.destroy
  cases hconnection : c.destroyed with
  | none => exact hfilter
  | some connection =>
    obtain ⟨hname, hid⟩ := h.destroyed c hc connection hconnection
    refine hfilter.onDestroyed ?_
    intro c' hc' hid' hname'
    obtain ⟨hlive, hnumber⟩ := List.mem_filter.mp hc'
    rw [h.name_inj c' hlive c hc (hid'.trans hid) (hname'.trans hname)] at hnumber
    simp at hnumber

/-- A channel is parted from exactly if its server has made it and it has a name. -/
theorem Consistent.parted_destroy {s : Irc} (h : Consistent s) {c : IrcChannel} (hc : c ∈ s.live) :
    Parted s c (s.destroy c) ↔ Regular s (.destroy c) := by
  constructor
  · intro hparted server hserver
    obtain ⟨-, hsent⟩ := hparted server hserver
    unfold Irc.destroy at hsent
    cases hconnection : c.destroyed with
    | none => simp [hconnection] at hsent
    | some connection =>
      obtain ⟨hname, hid⟩ := h.destroyed c hc connection hconnection
      simp only [hconnection] at hsent
      rcases onDestroyed_cases connection { s with live := s.live.filter (·.number != c.number) } with
        ⟨heq, -⟩ | ⟨server', hserver', hptr, heq⟩
      · rw [heq] at hsent
        simp at hsent
      · rw [heq] at hsent
        rw [hid, hserver] at hserver'
        obtain rfl := Option.some.inj hserver'
        refine ⟨by rw [hptr, ← hname], ?_⟩
        rintro hempty
        rw [hname, if_pos hempty] at hsent
        simp at hsent
  · intro hregular server hserver
    obtain ⟨hconnection, hname⟩ := hregular server hserver
    have hid := h.ptr c.serverId server hserver
    unfold Irc.destroy
    simp only [hconnection]
    rcases onDestroyed_cases ⟨server.ptr, c.name⟩ { s with live := s.live.filter (·.number != c.number) }
      with ⟨-, hnot⟩ | ⟨server', hserver', -, heq⟩
    · exact absurd rfl (hnot server (by rw [hid]; exact hserver))
    · rw [heq]
      simp only [hid, if_neg hname]
      refine ⟨⟨_, by rw [OrderedMap.find_insert, if_pos rfl], ?_⟩, trivial⟩
      rw [OrderedMap.find_erase, if_pos rfl]

/-! ## One operation -/

theorem Consistent.step {s s' : Irc} {e : Event} (h : Consistent s) (hstep : Step s e s')
    (hregular : Regular s e) : Consistent s' ∧ Kept s e s' := by
  cases hstep with
  | insert id hfree =>
    have hnext := h.itemInserted hfree hregular
    exact ⟨hnext, hnext.registry, trivial⟩
  | remove id =>
    have hnext := h.itemRemoved id
    exact ⟨hnext, hnext.registry, trivial⟩
  | getOrAddChannel id name =>
    cases hserver : s.servers_.find id with
    | none =>
      have hnext := h.addAbandoned hserver (hregular.2 hserver)
      exact ⟨hnext, hnext.registry, trivial⟩
    | some server =>
      have hnext := h.serverGetOrAddChannel hserver (hregular.1 server hserver)
      have heq : s.getOrAddChannel id name = Irc.serverGetOrAddChannel server id name s := by
        unfold Irc.getOrAddChannel
        rw [hserver]
      rw [heq]
      exact ⟨hnext, hnext.registry, trivial⟩
  | destroy c hlive =>
    have hnext := h.destroy hlive
    exact ⟨hnext, hnext.registry, (h.parted_destroy hlive).mpr hregular⟩

/-! ## Irregular operations break the registry -/

theorem mem_of_getChannelOrEmpty {server : IrcServer} {live : List IrcChannel} {name : QString}
    {c : IrcChannel} (h : server.getChannelOrEmpty live name = some c) :
    (cleanChannelName name, c.number) ∈ server.channels := by
  obtain ⟨number, hfind, hlock⟩ := Option.bind_eq_some_iff.mp h
  rw [(lock_eq_some hlock).2]
  exact OrderedMap.mem_of_find hfind

/-- A channel that is found on the server that takes it over has a clean name. -/
theorem Consistent.clean_of_adopted {s : Irc} (h : Consistent s) {id : Int}
    (hfree : s.servers_.find id = none) (hregistry : Registry (s.itemInserted id)) {c : IrcChannel}
    (hc : c ∈ s.live) (hid : c.serverId = id) : cleanChannelName c.name = c.name := by
  subst hid
  obtain ⟨numbers, hnumbers, -⟩ := h.waiting c hc hfree
  unfold Irc.itemInserted at hregistry
  rw [hnumbers] at hregistry
  have hfound := hregistry.found (c.setServer numbers (some ⟨c.serverId, s.next⟩))
    (mem_setServers.mpr ⟨c, hc, rfl⟩) _ (by rw [serverId_setServer, OrderedMap.find_insert, if_pos rfl])
  have hentry := mem_of_getChannelOrEmpty hfound
  rw [name_setServer, number_setServer] at hentry
  obtain ⟨-, c', hc', hnumber, hname⟩ := (restore_entry hentry).resolve_left List.not_mem_nil
  rw [← hname, h.number_inj c' hc' c hc hnumber]

/-- A channel that a server makes is found on it if its name is clean. -/
theorem Consistent.clean_of_made {s : Irc} (h : Consistent s) {id : Int} {name : QString}
    {server : IrcServer} (hserver : s.servers_.find id = some server)
    (hregistry : Registry (Irc.serverGetOrAddChannel server id name s))
    (hnone : server.getChannelOrEmpty s.live (cleanChannelName name) = none) :
    cleanChannelName (cleanChannelName name) = cleanChannelName name := by
  unfold Irc.serverGetOrAddChannel at hregistry
  simp only [hnone] at hregistry
  have hfound := hregistry.found _ (List.mem_append_right _ List.mem_cons_self) _
    (by rw [OrderedMap.find_insert, if_pos rfl])
  rcases OrderedMap.mem_of_mem_insert (mem_of_getChannelOrEmpty hfound) with heq | hold
  · exact (Prod.mk.inj heq).1
  · exact absurd (h.entry id server hserver _ _ hold).1 (Nat.lt_irrefl _)

theorem Consistent.regular {s s' : Irc} {e : Event} (h : Consistent s) (hstep : Step s e s')
    (hkept : Kept s e s') : Regular s e := by
  obtain ⟨hregistry, hparted⟩ := hkept
  cases hstep with
  | insert id hfree => exact fun c hc hid => h.clean_of_adopted hfree hregistry hc hid
  | remove => trivial
  | getOrAddChannel id name =>
    unfold Irc.getOrAddChannel at hregistry
    constructor
    · intro server hserver
      rw [hserver] at hregistry
      cases hfound : server.getChannelOrEmpty s.live (cleanChannelName name) with
      | some c => exact .inr (Option.some_ne_none c)
      | none => exact .inl (h.clean_of_made hserver hregistry hfound)
    · rintro hnone c hc rfl rfl
      rw [hnone] at hregistry
      have heq := hregistry.name_inj c (List.mem_append_left _ hc) _
        (List.mem_append_right _ List.mem_cons_self) rfl rfl
      exact absurd (congrArg IrcChannel.number heq) (Nat.ne_of_lt (h.number_lt c hc))
  | destroy c hlive => exact (h.parted_destroy hlive).mp hparted

/-! ## Runs -/

/-- The registry is kept throughout a run exactly if all its operations are regular. -/
theorem registry_iff_regular (events : List Event) (s : Irc) :
    Run (fun s e s' => Step s e s' ∧ Kept s e s') {} events s ↔
      Run (fun s e s' => Step s e s' ∧ Regular s e) {} events s := by
  have hkeep : ∀ s e s', Consistent s → Step s e s' → Regular s e → Consistent s' ∧ Kept s e s' :=
    fun s e s' h hstep hregular => h.step hstep hregular
  have honly : ∀ s e s', Consistent s → Step s e s' → Kept s e s' → Regular s e :=
    fun s e s' h hstep hkept => h.regular hstep hkept
  exact Run.guarded_steps_iff hkeep honly consistent_empty

/--
A connection is edited while its channel `x` is open, and then the channel is closed: nobody parts
from `x`, and the server keeps the name. Without a server, a channel that is asked for twice is there
twice.
-/
theorem adopted_channel_not_parted :
    (∃ s c, Run Step {}
        [.insert 1, .getOrAddChannel 1 "x".toList, .remove 1, .insert 1] s ∧ c ∈ s.live ∧
      c.name = "x".toList ∧ (s.destroy c).sent = [] ∧
      ((s.destroy c).servers_.find 1).map (·.channels.map Prod.fst) = some ["x".toList] ∧
      ¬ Parted s c (s.destroy c)) ∧
    ∃ s, Run Step {} [.getOrAddChannel 1 "x".toList, .getOrAddChannel 1 "x".toList] s ∧
      s.live.map (fun c => (c.serverId, c.name)) = [(1, "x".toList), (1, "x".toList)] ∧ ¬ Registry s := by
  constructor
  · refine ⟨_, ⟨1, 1, "x".toList, some ⟨1, 2⟩, some ⟨⟨1, 0⟩, "x".toList⟩⟩, .cons (.insert _ 1 rfl)
      (.cons (.getOrAddChannel _ 1 _) (.cons (.remove _ 1) (.cons (.insert _ 1 rfl) (.nil _)))),
      by decide, rfl, by decide, by decide, ?_⟩
    intro hparted
    exact absurd (hparted ⟨⟨1, 2⟩, [("x".toList, 1)]⟩ (by decide)).2 (by decide)
  · refine ⟨_, .cons (.getOrAddChannel _ 1 _) (.cons (.getOrAddChannel _ 1 _) (.nil _)), by decide, ?_⟩
    intro hregistry
    have heq := hregistry.name_inj ⟨0, 1, "x".toList, none, none⟩ (by decide)
      ⟨1, 1, "x".toList, none, none⟩ (by decide) rfl rfl
    exact absurd heq (by decide)

end Irc

end Dankerino
