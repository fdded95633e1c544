import ChatApi.Proofs.Model.Replies

/-!
# What was decoded survives being written and read again

Whatever text an entity was read from, the text that is written for it is read as an equal entity, and the same
text is written for that one. The one exception is a chain of replies as long as nesting allows whose last post
shows a member: what is written for it nests too deep to be read.
-/

namespace ChatApi

open Json (Codec Doc Decoded)

/-- Of whatever text `x` was read, the text written for it is read as an equal value, which is written the same. -/
def Json.Codec.RoundTrips {α : Type} (c : Codec α) (x : α) : Prop :=
  ∀ bytes, c.readText bytes = .ok x →
    ∃ y, c.readText (c.writeText x).toUTF8 = .ok y ∧ y = x ∧ c.writeText y = c.writeText x

theorem Json.Codec.Lawful.roundTrips {α : Type} {c : Codec α} {n : Nat} (h : c.Lawful n) (hn : n ≤ Json.maxDepth)
    (x : α) : c.RoundTrips x :=
  fun _ _ => ⟨x, h.readText_writeText hn x, rfl, rfl⟩

namespace Message

/-- The chain is as long as nesting allows, and its last post shows a member. -/
def IsFull (m : Message) : Prop :=
  m.chain.length + 1 = Json.maxDepth ∧ ∃ p ∈ m.chain.getLast?, p.member.isSome

/-- What was read from a text was read with all the nesting that a text may have. -/
theorem read_of_readText {bytes : ByteArray} {m : Message} (h : codec.readText bytes = .ok m) :
    ∃ d, read Json.maxDepth d = .ok m := by
  refine ⟨(Doc.ofText bytes).1, ?_⟩
  simp only [Codec.readText] at h
  split at h
  · cases h
  · rename_i hread
    split at h
    · cases h
      exact hread
    · cases h

theorem readText_writeText (m : Message) :
    codec.readText (codec.writeText m).toUTF8 = read Json.maxDepth (writeChain m.chain).toDoc :=
  codec.readText_write (isWhole_writeChain m.chain)

/-- A message whose chain is not full survives being written and read again. -/
theorem roundTrips {m : Message} (hfull : ¬ m.IsFull) : codec.RoundTrips m := by
  intro bytes h
  obtain ⟨d, hread⟩ := read_of_readText h
  have hfits := read_fits hread
  have hmembers : Along MemberFits Json.maxDepth m.chain := by
    refine along_memberFits hfits fun hlength p hp => ?_
    by_cases hshown : p.member.isSome
    · exact absurd ⟨hlength, p, hp, hshown⟩ hfull
    · simpa using hshown
  exact ⟨m, (readText_writeText m).trans (read_writeChain hfits hmembers), rfl, rfl⟩

/-- What is written for a full chain is not read. -/
theorem readText_of_isFull {bytes : ByteArray} {m : Message} (h : codec.readText bytes = .ok m) (hfull : m.IsFull) :
    codec.readText (codec.writeText m).toUTF8 = Json.malformed := by
  obtain ⟨d, hread⟩ := read_of_readText h
  exact (readText_writeText m).trans (read_writeChain_full (read_fits hread) hfull.1 hfull.2)

end Message

/-- Entities of all types survive being written and read again, all but a message whose chain of replies is as long
as nesting allows and ends in a post that shows a member. -/
theorem decoded_entities_round_trip :
    (∀ (kind : IdKind) (id : Snowflake kind), Snowflake.codec.RoundTrips id) ∧
      (∀ u, User.codec.RoundTrips u) ∧ (∀ u, CurrentUser.codec.RoundTrips u) ∧ (∀ r, Role.codec.RoundTrips r) ∧
      (∀ g, Guild.codec.RoundTrips g) ∧ (∀ a, Attachment.codec.RoundTrips a) ∧ (∀ m, Member.codec.RoundTrips m) ∧
      ∀ m : Message, ¬ m.IsFull → Message.codec.RoundTrips m := by
  refine ⟨fun _ => ?_, ?_, ?_, ?_, ?_, ?_, ?_, fun _ => Message.roundTrips⟩
  · exact Snowflake.codec_lawful.roundTrips (Nat.zero_le _)
  · exact (User.codec_lawful (n := 0)).roundTrips (by decide)
  · exact CurrentUser.codec_lawful.roundTrips (by decide)
  · exact (Role.codec_lawful (n := 0)).roundTrips (by decide)
  · exact (Guild.codec_lawful (n := 0)).roundTrips (by decide)
  · exact (Attachment.codec_lawful (n := 0)).roundTrips (by decide)
  · exact (Member.codec_lawful (n := 0)).roundTrips (by decide)

namespace Message

/-! ### Chains that end in a post that shows a member -/

/-- A post with nothing in it but what must be. -/
def barePost : Post where
  id := ⟨1⟩
  channelId := ⟨2⟩
  guildId := none
  content := ""
  attachments := []
  author := { (default : User) with id := ⟨3⟩, name := "a" }
  member := none
  webhookId := none
  timestamp := ⟨⟨⟨2020, 1, 1⟩, 0, 0, 0, 0, 0⟩, by decide, by decide⟩
  editedTimestamp := none
  tts := false
  mentionEveryone := false
  mentions := []
  mentionRoles := []
  pinned := false
  kind := 0
  flags := 0
  nonce := none

/-- The same with a member of whom nothing is known. -/
def memberPost : Post :=
  { barePost with member := some ⟨none, none, none, none, [], none, false, false, 0, none, none⟩ }

/-- A text for `memberPost` in which the member is an empty object. -/
def memberText : Json :=
  .record [("id", .text "1"), ("channel_id", .num (.integer 2)), ("member", .record []),
    ("author", .list [.text "3", .text "a"]), ("timestamp", .text "2020-01-01T00:00:00Z")]

/-- That text under `n` replies. -/
def repliesText : Nat → Json
  | 0 => memberText
  | n + 1 => writeOn (repliesText n) ⟨barePost, []⟩

theorem isWhole_repliesText (n : Nat) : (repliesText n).IsWhole := by
  induction n with
  | zero => simp [repliesText, memberText, Json.IsWhole, Json.MembersWhole, Json.ItemsWhole, Json.Number.IsWhole]
  | succ n ih => exact isWhole_writeOn ih _

/-- The replies and the post under them are read where there are two levels of nesting more than replies. -/
theorem read_repliesText (spare n : Nat) : ∃ m, read (spare + n + 2) (repliesText n).toDoc = .ok m ∧
    m.chain = List.replicate n barePost ++ [memberPost] := by
  induction n with
  | zero => exact ⟨⟨memberPost, []⟩, rfl, rfl⟩
  | succ n ih =>
    obtain ⟨m, hread, hchain⟩ := ih
    have hfits : barePost.Fits (spare + n + 2) := by
      constructor <;> simp [barePost]
    have hmember : MemberFits (spare + n + 2) barePost := by
      simp [MemberFits, barePost]
    have hanswered : (readAnswered (spare + n + 2)).read (spare + n + 2) (repliesText n).toDoc = .ok m.chain := by
      cases n <;> exact congrArg (Except.map chain) hread
    refine ⟨⟨barePost, m.chain⟩, ?_, ?_⟩
    · change read (spare + n + 2 + 1) _ = _
      rw [repliesText, read_writeOn hfits, read_member hmember, hanswered]
      rfl
    · rw [chain, hchain]
      rfl

theorem readText_repliesText {n : Nat} (hn : n + 2 ≤ Json.maxDepth) :
    ∃ m, codec.readText (repliesText n).write.toUTF8 = .ok m ∧
      m.chain = List.replicate n barePost ++ [memberPost] := by
  obtain ⟨m, hread, hchain⟩ := read_repliesText (Json.maxDepth - (n + 2)) n
  rw [Nat.add_assoc, Nat.sub_add_cancel hn] at hread
  exact ⟨m, (codec.readText_write (isWhole_repliesText n)).trans hread, hchain⟩

/-- A reply to a post that shows a member survives being written and read again. -/
theorem reply_to_member_round_trips :
    ∃ m, codec.readText (repliesText 1).write.toUTF8 = .ok m ∧ ¬ m.IsFull ∧
      ∃ y, codec.readText (codec.writeText m).toUTF8 = .ok y ∧ y = m ∧ codec.writeText y = codec.writeText m := by
  obtain ⟨m, hread, hchain⟩ := readText_repliesText (n := 1) (by decide)
  have hfull : ¬ m.IsFull := by
    simp [IsFull, hchain, Json.maxDepth]
  obtain ⟨-, -, -, -, -, -, -, hmessage⟩ := decoded_entities_round_trip
  exact ⟨m, hread, hfull, hmessage m hfull _ hread⟩

/-- What is written for the message read from a text with 125 replies, one in the other, is not read again. -/
theorem full_chain_is_not_reread :
    ∃ m, codec.readText (repliesText 125).write.toUTF8 = .ok m ∧
      ¬ ∃ y, codec.readText (codec.writeText m).toUTF8 = .ok y := by
  obtain ⟨m, hread, hchain⟩ := readText_repliesText (n := 125) (by decide)
  have hfull : m.IsFull := by
    refine ⟨?_, memberPost, ?_, rfl⟩
    · simp [hchain, Json.maxDepth]
    · simp [hchain]
  refine ⟨m, hread, ?_⟩
  rintro ⟨y, hy⟩
  rw [readText_of_isFull hread hfull] at hy
  cases hy

end Message

end ChatApi
