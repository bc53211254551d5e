import Dankerino.Irc.AbstractIrcServer

/-!
# Every open channel is joined

* `Covered` says of a name that a JOIN is the last that was sent for it, or that one is in the queue.
* `join_coverage`: JOINs are sent only for names in the map. While no channel goes that shares its
  line with another one, and no PART that was kept goes out for an open one, every open channel with a name is
  covered whenever there is a connection.
-/

namespace Dankerino

open Infra

namespace AbstractIrcServer

/-- The lines since the last PART of the name, the last one first. -/
def sincePart (name : QString) (sent : List Line) : List Line :=
  sent.reverse.takeWhile (·.text ≠ Irc.partLine name)

def Joined (name : QString) (sent : List Line) : Prop :=
  ∃ l ∈ sincePart name sent, l.text = joinLine name

def Covered (s : AbstractIrcServer) (name : QString) : Prop :=
  Joined name s.sent ∨ name ∈ s.joinBucket_.queue

/--
A channel that goes does not have the line of another one, and a line that was kept is not the PART of an open
channel when it is sent.
-/
def OwnLine (s : AbstractIrcServer) : Event → Prop
  | .destroy c => ∀ c' ∈ s.live, c'.number ≠ c.number → Irc.partLine c'.name ≠ Irc.partLine c.name
  | .pendingSent => ∀ l ∈ s.pending.head?, ∀ c ∈ s.live, l.text ≠ Irc.partLine c.name
  | _ => True

variable {qt : QTimer} {virtuals : Virtuals}

/-! ## Lines -/

/-- A JOIN for a name that is in the map. -/
def Line.IsJoin (l : Line) : Prop := ∃ name ∈ l.channels, l.text = joinLine name

theorem joinLine_ne_partLine (name name' : QString) : joinLine name ≠ Irc.partLine name' := by
  unfold joinLine Irc.partLine
  split <;> split <;> exact fun h => absurd (List.head_eq_of_cons_eq h) (by decide)

theorem Line.IsJoin.ne_partLine {l : Line} (h : l.IsJoin) (name : QString) :
    l.text ≠ Irc.partLine name := by
  obtain ⟨name', -, htext⟩ := h
  rw [htext]
  exact joinLine_ne_partLine name' name

theorem sincePart_append {name : QString} {lines : List Line}
    (hlines : ∀ l ∈ lines, l.text ≠ Irc.partLine name) (sent : List Line) :
    sincePart name (sent ++ lines) = lines.reverse ++ sincePart name sent := by
  unfold sincePart
  rw [List.reverse_append, List.takeWhile_append_of_pos]
  intro l hl
  simpa using hlines l (List.mem_reverse.mp hl)

/-- Lines that are no PART of the name leave it joined. -/
theorem Joined.append {name : QString} {sent lines : List Line} (h : Joined name sent)
    (hlines : ∀ l ∈ lines, l.text ≠ Irc.partLine name) : Joined name (sent ++ lines) := by
  obtain ⟨l, hl, htext⟩ := h
  rw [Joined, sincePart_append hlines]
  exact ⟨l, List.mem_append_right _ hl, htext⟩

theorem joined_of_mem {name : QString} {lines : List Line} (hjoins : ∀ l ∈ lines, l.IsJoin) {l : Line}
    (hl : l ∈ lines) (htext : l.text = joinLine name) (sent : List Line) :
    Joined name (sent ++ lines) := by
  rw [Joined, sincePart_append fun l hl => (hjoins l hl).ne_partLine name]
  exact ⟨l, List.mem_append_left _ (List.mem_reverse.mpr hl), htext⟩

/-! ## The callback -/

/-- Lines are handed to the connection, which sends them or keeps them. -/
def sendLines (lines : List Line) (s : AbstractIrcServer) : AbstractIrcServer :=
  if s.isConnected then { s with sent := s.sent ++ lines } else { s with pending := s.pending ++ lines }

@[simp] theorem sendLines_nil (s : AbstractIrcServer) : sendLines [] s = s := by
  simp [sendLines]

theorem sendLines_append (lines lines' : List Line) (s : AbstractIrcServer) :
    sendLines lines' (sendLines lines s) = sendLines (lines ++ lines') s := by
  cases h : s.isConnected <;> simp [sendLines, h]

@[simp] theorem sendLines_channels (lines : List Line) (s : AbstractIrcServer) :
    (sendLines lines s).channels = s.channels := by
  unfold sendLines
  split <;> rfl

@[simp] theorem sendLines_isConnected (lines : List Line) (s : AbstractIrcServer) :
    (sendLines lines s).isConnected = s.isConnected := by
  unfold sendLines
  split <;> rfl

/-- What the callback of the bucket does, called for each of the names. -/
structure Joins (s : AbstractIrcServer) (names : List QString) (lines : List Line) : Prop where
  isJoin : ∀ l ∈ lines, l.IsJoin
  sent : ∀ name ∈ names, name ∈ s.channels.keys → name ≠ [] → ∃ l ∈ lines, l.text = joinLine name

theorem actuallyJoin_joins (message : QString) (s : AbstractIrcServer) :
    ∃ lines, s.actuallyJoin message = sendLines lines s ∧ Joins s [message] lines := by
  unfold actuallyJoin
  by_cases hkeys : message ∈ s.channels.keys
  · rw [if_neg (not_not.mpr hkeys)]
    by_cases hlength : message.length = 0
    · rw [if_pos hlength]
      refine ⟨[], (sendLines_nil s).symm, by simp, ?_⟩
      intro name hname _ hne
      obtain rfl := List.mem_singleton.mp hname
      exact absurd (List.length_eq_zero_iff.mp hlength) hne
    rw [if_neg hlength]
    refine ⟨[{ text := joinLine message, channels := s.channels.keys }], rfl, ?_, ?_⟩
    · intro l hl
      obtain rfl := List.mem_singleton.mp hl
      exact ⟨message, hkeys, rfl⟩
    · intro name hname _ _
      obtain rfl := List.mem_singleton.mp hname
      exact ⟨_, List.mem_singleton_self _, rfl⟩
  · rw [if_pos hkeys]
    refine ⟨[], (sendLines_nil s).symm, by simp, ?_⟩
    intro name hname hmem
    obtain rfl := List.mem_singleton.mp hname
    exact absurd hmem hkeys

theorem foldl_actuallyJoin (calls : List (Nat × QString)) (s : AbstractIrcServer) :
    ∃ lines, calls.foldl (fun s call => s.actuallyJoin call.2) s = sendLines lines s ∧
      Joins s (calls.map Prod.snd) lines := by
  induction calls generalizing s with
  | nil => exact ⟨[], (sendLines_nil s).symm, by simp, by simp⟩
  | cons call calls ih =>
    obtain ⟨lines, hjoin, hlines⟩ := actuallyJoin_joins call.2 s
    obtain ⟨rest, hrest, hrestLines⟩ := ih (sendLines lines s)
    refine ⟨lines ++ rest, ?_, ?_, ?_⟩
    · rw [List.foldl_cons, hjoin, hrest, sendLines_append]
    · intro l hl
      rcases List.mem_append.mp hl with hl | hl
      · exact hlines.isJoin l hl
      · exact hrestLines.isJoin l hl
    · intro name hname hmem hne
      rcases List.mem_cons.mp hname with rfl | hname
      · obtain ⟨l, hl, htext⟩ := hlines.sent _ (List.mem_singleton_self _) hmem hne
        exact ⟨l, List.mem_append_left _ hl, htext⟩
      · rw [← sendLines_channels lines s] at hmem
        obtain ⟨l, hl, htext⟩ := hrestLines.sent name hname hmem hne
        exact ⟨l, List.mem_append_right _ hl, htext⟩

/-! ## The bucket -/

/-- What using the bucket does to the server, when the names are asked for. -/
structure Used (s : AbstractIrcServer) (asked : List QString) (s' : AbstractIrcServer) : Prop where
  frame : ∃ bucket lines, s' = sendLines lines { s with joinBucket_ := bucket } ∧ ∀ l ∈ lines, l.IsJoin
  covered : s.isConnected → ∀ name ∈ s.channels.keys, name ≠ [] →
    Covered s name ∨ name ∈ asked → Covered s' name

theorem Used.refl (s : AbstractIrcServer) : Used s [] s :=
  ⟨⟨s.joinBucket_, [], by simp, by simp⟩, by simp⟩

/-- The bucket and the lines are all that changes. -/
structure Framed (s s' : AbstractIrcServer) : Prop where
  channels : s'.channels = s.channels
  isConnected : s'.isConnected = s.isConnected
  live : s'.live = s.live
  next : s'.next = s.next

theorem Used.framed {s s' : AbstractIrcServer} {asked : List QString} (h : Used s asked s') : Framed s s' := by
  obtain ⟨bucket, lines, rfl, -⟩ := h.frame
  unfold sendLines
  split <;> exact ⟨rfl, rfl, rfl, rfl⟩

theorem Used.trans {s s' s'' : AbstractIrcServer} {asked asked' : List QString} (h : Used s asked s')
    (h' : Used s' asked' s'') : Used s (asked ++ asked') s'' := by
  have hframed := h.framed
  obtain ⟨⟨bucket, lines, hs', hlines⟩, hcovered⟩ := h
  obtain ⟨⟨bucket', lines', hs'', hlines'⟩, hcovered'⟩ := h'
  refine ⟨⟨bucket', lines ++ lines', ?_, fun l hl => ?_⟩, ?_⟩
  · have hbucket : { s' with joinBucket_ := bucket' } = sendLines lines { s with joinBucket_ := bucket' } := by
      rw [hs']
      unfold sendLines
      split <;> rfl
    rw [hs'', hbucket, sendLines_append]
  · rcases List.mem_append.mp hl with hl | hl
    · exact hlines l hl
    · exact hlines' l hl
  · intro hconnected name hmem hne hname
    rw [← hframed.isConnected] at hconnected
    apply hcovered' hconnected name (hframed.channels ▸ hmem) hne
    rw [hframed.isConnected] at hconnected
    rcases hname with hname | hname
    · exact .inl (hcovered hconnected name hmem hne (.inl hname))
    · rcases List.mem_append.mp hname with hname | hname
      · exact .inl (hcovered hconnected name hmem hne (.inr hname))
      · exact .inr hname

theorem used_withBucket {f : RatelimitBucket → RatelimitBucket} {s : AbstractIrcServer}
    {asked : List QString} (hf : (s.joinBucket_).Drains asked (f s.joinBucket_)) :
    Used s asked (s.withBucket f) := by
  obtain ⟨calls, hexecuted, hqueue⟩ := hf
  obtain ⟨lines, hfold, hlines⟩ := foldl_actuallyJoin calls { s with joinBucket_ := f s.joinBucket_ }
  have heq : s.withBucket f = sendLines lines { s with joinBucket_ := f s.joinBucket_ } := by
    unfold withBucket
    dsimp only
    rw [hexecuted, List.drop_left]
    exact hfold
  refine ⟨⟨_, lines, heq, hlines.isJoin⟩, ?_⟩
  intro hconnected name hmem hne hname
  rw [heq, sendLines, if_pos hconnected]
  have hwaiting : name ∈ s.joinBucket_.queue ++ asked →
      name ∈ calls.map Prod.snd ∨ name ∈ (f s.joinBucket_).queue := by
    rw [hqueue]
    exact List.mem_append.mp
  rcases hname with (hname | hname) | hname
  · exact .inl (hname.append fun l hl => (hlines.isJoin l hl).ne_partLine name)
  all_goals
    rcases hwaiting (by simp [hname]) with hcall | hcall
    · obtain ⟨l, hl, htext⟩ := hlines.sent name hcall hmem hne
      exact .inl (joined_of_mem hlines.isJoin hl htext s.sent)
    · exact .inr hcall

theorem used_join (channelName : QString) (s : AbstractIrcServer) :
    Used s [channelName] (s.join qt channelName) :=
  used_withBucket (RatelimitBucket.drains_send qt joinRatelimit channelName s.joinBucket_)

/-- The names of the channels that are still there are asked for. -/
theorem used_joinAll (channels : List (QString × Nat)) (s : AbstractIrcServer) :
    Used s (channels.filterMap fun weak => (lock s.live weak.2).map Channel.name) (joinAll qt channels s) := by
  induction channels generalizing s with
  | nil => exact Used.refl s
  | cons weak channels ih =>
    unfold joinAll
    cases hlock : lock s.live weak.2 with
    | none => simpa [hlock] using ih s
    | some channel =>
      have hjoin : Used s [channel.name] (s.join qt channel.name) := used_join channel.name s
      have hrest := ih (s.join qt channel.name)
      rw [hjoin.framed.live] at hrest
      simpa [hlock] using hjoin.trans hrest

/-! ## Channels -/

/-- The channels that are there, and the map that leads to them. -/
structure Objects (s : AbstractIrcServer) : Prop where
  number_lt : ∀ c ∈ s.live, c.number < s.next
  number_inj : ∀ c ∈ s.live, ∀ c' ∈ s.live, c.number = c'.number → c = c'
  /-- The name of a channel leads to a channel of this name. -/
  found : ∀ c ∈ s.live, ∃ c' ∈ s.live, s.channels.find c.name = some c'.number ∧ c'.name = c.name

theorem Objects.mem_keys {s : AbstractIrcServer} (h : Objects s) {c : Channel} (hc : c ∈ s.live) :
    c.name ∈ s.channels.keys := by
  obtain ⟨c', -, hfind, -⟩ := h.found c hc
  exact OrderedMap.mem_keys_iff_find.mpr ⟨_, hfind⟩

theorem Objects.lock {s : AbstractIrcServer} (h : Objects s) {c : Channel} (hc : c ∈ s.live) :
    lock s.live c.number = some c := by
  unfold AbstractIrcServer.lock
  cases hlock : s.live.find? (·.number == c.number) with
  | none => simpa using List.find?_eq_none.mp hlock c hc
  | some c' =>
    have hnumber : c'.number = c.number := by simpa using List.find?_some hlock
    rw [h.number_inj c' (List.mem_of_find?_eq_some hlock) c hc hnumber]

/-- A new channel takes over its name in the map. -/
theorem Objects.add {s : AbstractIrcServer} (h : Objects s) (channelName : QString) :
    Objects { s with
      channels := s.channels.insert channelName s.next
      live := s.live ++ [⟨s.next, channelName⟩]
      next := s.next + 1 } where
  number_lt := by
    intro c hc
    rcases List.mem_append.mp hc with hc | hc
    · exact Nat.lt_succ_of_lt (h.number_lt c hc)
    · obtain rfl := List.mem_singleton.mp hc
      exact Nat.lt_succ_self _
  number_inj := by
    intro c hc c' hc' hnumber
    rcases List.mem_append.mp hc with hc | hc <;> rcases List.mem_append.mp hc' with hc' | hc'
    · exact h.number_inj c hc c' hc' hnumber
    · obtain rfl := List.mem_singleton.mp hc'
      exact absurd hnumber (Nat.ne_of_lt (h.number_lt c hc))
    · obtain rfl := List.mem_singleton.mp hc
      exact absurd hnumber.symm (Nat.ne_of_lt (h.number_lt c' hc'))
    · rw [List.mem_singleton.mp hc, List.mem_singleton.mp hc']
  found := by
    intro c hc
    by_cases hname : c.name = channelName
    · refine ⟨⟨s.next, channelName⟩, by simp, ?_, hname.symm⟩
      simp [OrderedMap.find_insert, hname]
    · rcases List.mem_append.mp hc with hc | hc
      · obtain ⟨c', hc', hfind, hname'⟩ := h.found c hc
        refine ⟨c', List.mem_append_left _ hc', ?_, hname'⟩
        simpa [OrderedMap.find_insert, hname] using hfind
      · obtain rfl := List.mem_singleton.mp hc
        exact absurd rfl hname

/-- A channel goes whose name no other channel has. -/
theorem Objects.erase {s : AbstractIrcServer} (h : Objects s) {c : Channel} (hc : c ∈ s.live)
    (hown : ∀ c' ∈ s.live, c'.number ≠ c.number → c'.name ≠ c.name) :
    Objects { s with
      channels := s.channels.erase c.name
      live := s.live.filter (·.number != c.number) } where
  number_lt := fun c' hc' => h.number_lt c' (List.mem_of_mem_filter hc')
  number_inj := fun c₁ hc₁ c₂ hc₂ =>
    h.number_inj c₁ (List.mem_of_mem_filter hc₁) c₂ (List.mem_of_mem_filter hc₂)
  found := by
    intro c₁ hc₁
    obtain ⟨hc₁, hnumber⟩ := List.mem_filter.mp hc₁
    have hne := hown c₁ hc₁ (by simpa using hnumber)
    obtain ⟨c₂, hc₂, hfind, hname⟩ := h.found c₁ hc₁
    refine ⟨c₂, List.mem_filter.mpr ⟨hc₂, ?_⟩, ?_, hname⟩
    · rw [bne_iff_ne]
      intro heq
      -- with the number it would be the channel that goes
      obtain rfl := h.number_inj c₂ hc₂ c hc heq
      exact hne hname.symm
    · simpa [OrderedMap.find_erase, hne] using hfind

theorem Framed.objects {s s' : AbstractIrcServer} (h : Framed s s') (hs : Objects s) : Objects s' where
  number_lt := by
    rw [h.live, h.next]
    exact hs.number_lt
  number_inj := by
    rw [h.live]
    exact hs.number_inj
  found := by
    rw [h.live, h.channels]
    exact hs.found

/-! ## Runs -/

/-- A JOIN for a name in the map, a PART, or a command of the user. -/
def Line.IsKnown (l : Line) : Prop := l.IsJoin ∨ (∃ name, l.text = Irc.partLine name) ∨ l.isCommand

/-- All lines that went out or were kept are known. -/
structure LinesKnown (s : AbstractIrcServer) : Prop where
  sent : ∀ l ∈ s.sent, l.IsKnown
  pending : ∀ l ∈ s.pending, l.IsKnown

theorem LinesKnown.sendLines {s : AbstractIrcServer} (hs : LinesKnown s) {lines : List Line}
    (hlines : ∀ l ∈ lines, l.IsKnown) : LinesKnown (sendLines lines s) := by
  unfold AbstractIrcServer.sendLines
  split
  · exact ⟨List.forall_mem_append.mpr ⟨hs.sent, hlines⟩, hs.pending⟩
  · exact ⟨hs.sent, List.forall_mem_append.mpr ⟨hs.pending, hlines⟩⟩

theorem Used.linesKnown {s s' : AbstractIrcServer} {asked : List QString} (h : Used s asked s')
    (hs : LinesKnown s) : LinesKnown s' := by
  obtain ⟨⟨bucket, lines, rfl, hlines⟩, -⟩ := h
  have hbucket : LinesKnown { s with joinBucket_ := bucket } := ⟨hs.sent, hs.pending⟩
  exact hbucket.sendLines fun l hl => .inl (hlines l hl)

theorem destroy_eq (c : Channel) (s : AbstractIrcServer) :
    s.destroy c = sendLines (if c.name.length = 0 then [] else
        [{ text := Irc.partLine c.name, channels := (s.channels.erase c.name).keys }])
      { s with
        channels := s.channels.erase c.name
        live := s.live.filter (·.number != c.number) } := by
  unfold destroy onDestroyed
  dsimp only
  split
  · exact (sendLines_nil _).symm
  · rfl

theorem linesKnown_destroy {s : AbstractIrcServer} (hs : LinesKnown s) (c : Channel) :
    LinesKnown (s.destroy c) := by
  have hgone : LinesKnown { s with
      channels := s.channels.erase c.name
      live := s.live.filter (·.number != c.number) } := ⟨hs.sent, hs.pending⟩
  rw [destroy_eq]
  refine hgone.sendLines fun l hl => ?_
  split at hl
  · exact nomatch hl
  · obtain rfl := List.mem_singleton.mp hl
    exact .inr (.inl ⟨c.name, rfl⟩)

/-- The lines of the commands of the user. -/
def commandLines (virtuals : Virtuals) (s : AbstractIrcServer) : List Line :=
  virtuals.connectCommands.map fun command => ⟨command ++ ['\r', '\n'], s.channels.keys, true⟩

theorem sendCommands_eq (s : AbstractIrcServer) :
    sendCommands virtuals s = sendLines (commandLines virtuals s) s := by
  unfold sendCommands commandLines
  induction virtuals.connectCommands generalizing s with
  | nil => exact (sendLines_nil s).symm
  | cons command commands ih =>
    have hline (line : Line) (lines : List Line) :
        sendLines (line :: lines) s = sendLines lines (s.sendLine line) :=
      (sendLines_append [line] lines s).symm
    have hchannels (line : Line) : (s.sendLine line).channels = s.channels := sendLines_channels [line] s
    rw [List.foldl_cons, ih, List.map_cons, hline, hchannels]

/-- What `getOrAddChannel` does, if anything. -/
theorem getOrAddChannel_cases (dirtyChannelName : QString) (s : AbstractIrcServer) :
    s.getOrAddChannel qt virtuals dirtyChannelName = s ∨
      ∃ added : AbstractIrcServer, ∃ channelName,
        added = { s with
          channels := s.channels.insert channelName s.next
          live := s.live ++ [⟨s.next, channelName⟩]
          next := s.next + 1 } ∧
        s.getOrAddChannel qt virtuals dirtyChannelName
          = if s.isConnected then added.join qt channelName else added := by
  unfold getOrAddChannel
  by_cases hget : s.getChannelOrEmpty virtuals (virtuals.cleanChannelName dirtyChannelName)
  · exact .inl (if_pos hget)
  by_cases hcreate : virtuals.createChannel (virtuals.cleanChannelName dirtyChannelName)
  · refine .inr ⟨_, virtuals.cleanChannelName dirtyChannelName, rfl, ?_⟩
    rw [if_neg hget, if_neg (not_not.mpr hcreate)]
  · left
    rw [if_neg hget, if_pos hcreate]

theorem linesKnown_of_step {s s' : AbstractIrcServer} {e : Event}
    (hs : LinesKnown s) (hstep : Step qt virtuals s e s') : LinesKnown s' := by
  cases hstep with
  | getOrAddChannel dirtyChannelName =>
    rcases getOrAddChannel_cases dirtyChannelName s with heq | ⟨added, channelName, hadded, heq⟩
    · rwa [heq]
    · have hknown : LinesKnown added := by
        subst hadded
        exact ⟨hs.sent, hs.pending⟩
      rw [heq]
      split_ifs
      · exact (used_join channelName added).linesKnown hknown
      · exact hknown
  | destroy => exact linesKnown_destroy hs _
  | connected early =>
    unfold connected onReadConnected
    apply (used_joinAll _ _).linesKnown
    rw [sendCommands_eq]
    apply LinesKnown.sendLines
    · exact ⟨fun l hl => hs.pending l (List.mem_of_mem_take hl),
        fun l hl => hs.pending l (List.mem_of_mem_drop hl)⟩
    · intro l hl
      obtain ⟨command, -, rfl⟩ := List.mem_map.mp hl
      exact .inr (.inr rfl)
  | disconnected => exact ⟨fun l hl => (nomatch hl), hs.pending⟩
  | @pendingSent line rest hpending hconnected =>
    have hall := hs.pending
    rw [hpending, List.forall_mem_cons] at hall
    refine ⟨List.forall_mem_append.mpr ⟨hs.sent, ?_⟩, hall.2⟩
    exact List.forall_mem_singleton.mpr hall.1
  | pendingLost i => exact ⟨hs.sent, fun l hl => hs.pending l (List.mem_of_mem_eraseIdx hl)⟩
  | joinTimeout hi hdue =>
    exact (used_withBucket (RatelimitBucket.drains_timeout qt joinRatelimit _ _)).linesKnown hs
  | tick n => exact ⟨hs.sent, hs.pending⟩

/-- Every open channel with a name is covered. -/
structure Served (s : AbstractIrcServer) : Prop where
  objects : Objects s
  covered : s.isConnected → ∀ c ∈ s.live, c.name ≠ [] → Covered s c.name

theorem Used.served {s s' : AbstractIrcServer} {asked : List QString} (h : Used s asked s')
    (hs : Objects s)
    (hcovered : s.isConnected → ∀ c ∈ s.live, c.name ≠ [] → Covered s c.name ∨ c.name ∈ asked) :
    Served s' := by
  have hframed := h.framed
  refine ⟨hframed.objects hs, ?_⟩
  rw [hframed.isConnected, hframed.live]
  intro hconnected c hc hne
  exact h.covered hconnected c.name (hs.mem_keys hc) hne (hcovered hconnected c hc hne)

/-- Lines that are PARTs of no open channel leave every one of them covered. -/
theorem Served.sent {s : AbstractIrcServer} (hs : Served s) {lines : List Line}
    (hlines : ∀ l ∈ lines, ∀ c ∈ s.live, l.text ≠ Irc.partLine c.name) (pending : List Line) :
    Served { s with sent := s.sent ++ lines, pending } := by
  refine ⟨⟨hs.objects.number_lt, hs.objects.number_inj, hs.objects.found⟩, fun hconnected c hc hne => ?_⟩
  rcases hs.covered hconnected c hc hne with hjoined | hqueue
  · exact .inl (hjoined.append fun l hl => hlines l hl c hc)
  · exact .inr hqueue

theorem served_onDestroyed {s : AbstractIrcServer} (hs : Served s) {c : Channel} (hc : c ∈ s.live)
    (hown : ∀ c' ∈ s.live, c'.number ≠ c.number → Irc.partLine c'.name ≠ Irc.partLine c.name) :
    Served (s.destroy c) := by
  have hobjects := hs.objects.erase hc fun c' hc' hnumber heq =>
    hown c' hc' hnumber (congrArg Irc.partLine heq)
  have hgone : Served { s with
      channels := s.channels.erase c.name
      live := s.live.filter (·.number != c.number) } := by
    refine ⟨hobjects, fun hconnected c' hc' hne => ?_⟩
    exact hs.covered hconnected c' (List.mem_of_mem_filter hc') hne
  rw [destroy_eq]
  unfold sendLines
  split
  · refine hgone.sent (fun l hl c' hc' => ?_) s.pending
    split at hl
    · exact nomatch hl
    · obtain rfl := List.mem_singleton.mp hl
      obtain ⟨hlive, hnumber⟩ := List.mem_filter.mp hc'
      exact (hown c' hlive (by simpa using hnumber)).symm
  · next hconnected =>
    exact ⟨⟨hobjects.number_lt, hobjects.number_inj, hobjects.found⟩, fun h => absurd h hconnected⟩

theorem served_connected {s : AbstractIrcServer} (hs : Objects s) (early : Nat) :
    Served (s.connected qt virtuals early) := by
  unfold connected onReadConnected
  rw [sendCommands_eq]
  apply (used_joinAll s.channels _).served
  · exact ⟨hs.number_lt, hs.number_inj, hs.found⟩
  · intro _ c hc _
    obtain ⟨c', hc', hfind, hname⟩ := hs.found c hc
    right
    refine List.mem_filterMap.mpr ⟨_, OrderedMap.mem_of_find hfind, ?_⟩
    show (lock s.live c'.number).map Channel.name = some c.name
    rw [hs.lock hc', Option.map_some, hname]

theorem served_of_step {s s' : AbstractIrcServer} {e : Event}
    (hs : Served s) (hstep : Step qt virtuals s e s') (hown : OwnLine s e) : Served s' := by
  have hobjects := hs.objects
  cases hstep with
  | getOrAddChannel dirtyChannelName =>
    rcases getOrAddChannel_cases dirtyChannelName s with heq | ⟨added, channelName, rfl, heq⟩
    · rwa [heq]
    · have hobjects := hs.objects.add channelName
      rw [heq]
      split_ifs with hconnected
      · apply (used_join channelName _).served hobjects
        intro _ c hc hne
        rcases List.mem_append.mp hc with hc | hc
        · exact .inl (hs.covered hconnected c hc hne)
        · obtain rfl := List.mem_singleton.mp hc
          exact .inr (List.mem_singleton_self _)
      · exact ⟨hobjects, fun h => absurd h hconnected⟩
  | destroy hlive => exact served_onDestroyed hs hlive hown
  | connected early => exact served_connected hobjects early
  | disconnected => exact ⟨⟨hobjects.number_lt, hobjects.number_inj, hobjects.found⟩, fun h => nomatch h⟩
  | @pendingSent line rest hpending hconnected =>
    have hline : ∀ l ∈ [line], ∀ c ∈ s.live, l.text ≠ Irc.partLine c.name := by
      intro l hl c hc
      obtain rfl := List.mem_singleton.mp hl
      exact hown l (by simp [hpending]) c hc
    exact hs.sent hline rest
  | pendingLost i => exact ⟨⟨hobjects.number_lt, hobjects.number_inj, hobjects.found⟩, hs.covered⟩
  | joinTimeout hi hdue =>
    apply (used_withBucket (RatelimitBucket.drains_timeout qt joinRatelimit _ _)).served hobjects
    exact fun hconnected c hc hne => .inl (hs.covered hconnected c hc hne)
  | tick n => exact ⟨⟨hobjects.number_lt, hobjects.number_inj, hobjects.found⟩, hs.covered⟩

/--
**JOIN coverage.** In every run, but for the commands of the user, a JOIN is sent only for a name that is in the
map at that moment. In every run in which no channel goes while another open one has the same line, and no PART
that was kept goes out while an open channel has this line, every open channel whose name is not empty is covered
whenever there is a connection: a JOIN has been sent on it since the last PART, or one is in the queue.
-/
theorem join_coverage (qt : QTimer) (virtuals : Virtuals) :
    (∀ events s, Run (Step qt virtuals) new events s →
      ∀ l ∈ s.sent ++ s.pending, l.isCommand = false → QString.startsWith l.text "JOIN ".toList →
        ∃ name ∈ l.channels, l.text = joinLine name) ∧
    ∀ events s, Run (fun s e s' => Step qt virtuals s e s' ∧ OwnLine s e) new events s →
      s.isConnected → ∀ c ∈ s.live, c.name ≠ [] → Covered s c.name := by
  constructor
  · intro events s hrun l hl hcommand hjoin
    have hknown : LinesKnown s := by
      refine Run.invariant (fun _ _ _ hs hstep => ?_) ?_ hrun
      · exact linesKnown_of_step hs hstep
      · exact ⟨by simp [new], by simp [new]⟩
    have hl : l.IsKnown := (List.mem_append.mp hl).elim (hknown.sent l) (hknown.pending l)
    rcases hl with h | ⟨name, htext⟩ | h
    · exact h
    · rw [htext] at hjoin
      unfold Irc.partLine at hjoin
      split at hjoin <;> exact nomatch hjoin
    · exact absurd h (by simp [hcommand])
  · intro events s hrun
    have hnew : Served new := ⟨⟨by simp [new], by simp [new], by simp [new]⟩, fun h => nomatch h⟩
    have hserved : Served s := by
      refine Run.invariant (fun _ _ _ hs hstep => ?_) hnew hrun
      exact served_of_step hs hstep.1 hstep.2
    exact hserved.covered

/--
Two channels, one of them opened before the connection. The one that stays is joined. The PART of a third one was
kept, and goes out before.
-/
theorem join_coverage_two :
    ∃ s, Run (fun s e s' => Step .early (ircServer []) s e s' ∧ OwnLine s e) new
        [.getOrAddChannel "#a".toList, .getOrAddChannel "c".toList, .destroy ⟨1, "c".toList⟩, .connected 0,
          .getOrAddChannel "b".toList, .pendingSent, .destroy ⟨2, "b".toList⟩] s ∧
      s.isConnected ∧ s.live = [⟨0, "a".toList⟩] ∧ Covered s "a".toList := by
  have hrun : ∃ s, Run (fun s e s' => Step .early (ircServer []) s e s' ∧ OwnLine s e) new
        [.getOrAddChannel "#a".toList, .getOrAddChannel "c".toList, .destroy ⟨1, "c".toList⟩, .connected 0,
          .getOrAddChannel "b".toList, .pendingSent, .destroy ⟨2, "b".toList⟩] s ∧
      s.isConnected ∧ s.live = [⟨0, "a".toList⟩] :=
    ⟨_, .cons ⟨.getOrAddChannel _ _, trivial⟩ (.cons ⟨.getOrAddChannel _ _, trivial⟩
      (.cons ⟨.destroy _ (by decide +kernel), by unfold OwnLine; decide +kernel⟩
      (.cons ⟨.connected _ _, trivial⟩ (.cons ⟨.getOrAddChannel _ _, trivial⟩
      (.cons ⟨.pendingSent _ rfl (by decide +kernel), by unfold OwnLine; decide +kernel⟩
      (.single ⟨.destroy _ (by decide +kernel), by unfold OwnLine; decide +kernel⟩)))))),
      by decide +kernel, by decide +kernel⟩
  obtain ⟨s, hrun, hconnected, hlive⟩ := hrun
  refine ⟨s, hrun, hconnected, hlive, ?_⟩
  exact (join_coverage .early (ircServer [])).2 _ s hrun hconnected ⟨0, "a".toList⟩ (by rw [hlive]; simp) (by simp)

/--
An open channel is not covered: one with the empty name, one whose twin of the same name went, one whose line is
that of another one that went, and one whose predecessor went while there was no connection. A command of the user
joins what is not in the map.
-/
theorem not_covered :
    (∃ s, Run (Step .punctual (ircServer [])) new [.connected 0, .getOrAddChannel []] s ∧
      s.isConnected ∧ ∃ c ∈ s.live, ¬ Covered s c.name) ∧
    (∃ s, Run (Step .punctual (ircServer [])) new [.connected 0, .getOrAddChannel "##x".toList,
        .getOrAddChannel "##x".toList, .destroy ⟨0, "#x".toList⟩] s ∧
      s.isConnected ∧ ∃ c ∈ s.live, c.name ≠ [] ∧ ¬ Covered s c.name) ∧
    (∃ s, Run (Step .punctual (ircServer [])) new [.connected 0, .getOrAddChannel "x".toList,
        .getOrAddChannel "$#x".toList, .destroy ⟨1, "$#x".toList⟩] s ∧
      s.isConnected ∧ ∃ c ∈ s.live, c.name ≠ [] ∧ ¬ Covered s c.name) ∧
    (∃ s, Run (Step .punctual (ircServer [])) new [.getOrAddChannel "x".toList, .destroy ⟨0, "x".toList⟩,
        .getOrAddChannel "x".toList, .connected 0, .pendingSent] s ∧
      s.isConnected ∧ ∃ c ∈ s.live, c.name ≠ [] ∧ ¬ Covered s c.name) ∧
    ∃ s, Run (Step .punctual (ircServer ["JOIN #x".toList])) new [.connected 0] s ∧
      ∃ l ∈ s.sent, QString.startsWith l.text "JOIN ".toList = true ∧ l.channels = [] := by
  refine ⟨⟨_, .cons (.connected _ _) (.single (.getOrAddChannel _ _)), ?_⟩,
    ⟨_, .cons (.connected _ _) (.cons (.getOrAddChannel _ _) (.cons (.getOrAddChannel _ _)
      (.single (.destroy _ (by decide +kernel))))), ?_⟩,
    ⟨_, .cons (.connected _ _) (.cons (.getOrAddChannel _ _) (.cons (.getOrAddChannel _ _)
      (.single (.destroy _ (by decide +kernel))))), ?_⟩,
    ⟨_, .cons (.getOrAddChannel _ _) (.cons (.destroy _ (by decide +kernel)) (.cons (.getOrAddChannel _ _)
      (.cons (.connected _ _) (.single (.pendingSent _ rfl (by decide +kernel)))))), ?_⟩,
    ⟨_, .single (.connected _ _), ?_⟩⟩
  · exact ⟨by decide +kernel, ⟨0, []⟩, by decide +kernel, by unfold Covered Joined; decide +kernel⟩
  · exact ⟨by decide +kernel, ⟨1, "#x".toList⟩, by decide +kernel, by decide +kernel,
      by unfold Covered Joined; decide +kernel⟩
  · exact ⟨by decide +kernel, ⟨0, "x".toList⟩, by decide +kernel, by decide +kernel,
      by unfold Covered Joined; decide +kernel⟩
  · exact ⟨by decide +kernel, ⟨1, "x".toList⟩, by decide +kernel, by decide +kernel,
      by unfold Covered Joined; decide +kernel⟩
  · exact ⟨⟨"JOIN #x\r\n".toList, [], true⟩, by decide +kernel, by decide +kernel, rfl⟩

end AbstractIrcServer

end Dankerino
