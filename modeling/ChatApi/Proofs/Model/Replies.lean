import ChatApi.Proofs.Json.Source
import ChatApi.Proofs.Model.Records

/-!
# Chains of replies are read back as they were written

Each post of a chain is nested one deeper than the one that answers it, and what stands in a post is nested
deeper still: a list needs one level, the users and attachments in it two, a shown member two for its list of
roles. A message that was read fits into the nesting there is (`read_fits`), but for the last member shown in a
chain as long as can be: its list of roles may have been left out of the text, and is written all the same. All
other messages are read back as they were written (`read_writeChain`), and those are not (`read_writeChain_full`).
-/

namespace ChatApi

open Json (Codec Record Doc Decoded)

/-- The post can be written with its fields nested at most `depth` deep, a member that it shows left aside. -/
structure Post.Fits (depth : Nat) (p : Post) : Prop where
  author : 0 < depth
  attachments : p.attachments ≠ [] → 1 < depth
  mentions : p.mentions ≠ [] → 1 < depth

namespace Message

variable {n depth : Nat} {p : Post} {rest : List Post} {answered : Json}

/-- What holds of each post of a chain at the depth that its fields have. -/
def Along (P : Nat → Post → Prop) : Nat → List Post → Prop
  | _, [] => True
  | 0, _ :: _ => False
  | depth + 1, p :: rest => P depth p ∧ Along P depth rest

theorem along_nil {P : Nat → Post → Prop} : Along P depth [] := by
  cases depth <;> trivial

/-! ### What was read fits -/

/-- How the posts that a message answers are read. -/
def readAnswered (depth : Nat) : Codec (List Post) where
  read _ d := match d with
    | .null => .ok []
    | d => (read depth d).map chain
  write := writeChain

theorem read_succ (depth : Nat) (d : Doc) : read (depth + 1) d = (record (readAnswered depth)).read (depth + 1) d :=
  rfl

theorem read_zero_ne_ok (d : Doc) (m : Message) : read 0 d ≠ .ok m := by
  intro h
  obtain ⟨below, xs, hdepth, -⟩ := Record.sourced_of_read h
  cases hdepth

/-- A list that was left out or read needs two levels only for what is in it. -/
theorem one_lt_of_sourced {α : Type} {name : String} {c : Codec α} {xs : List α}
    (hc : ∀ {depth d x}, c.read depth d = .ok x → 0 < depth) (h : (Json.Field.default name c.list []).Sourced depth xs)
    (hne : xs ≠ []) : 1 < depth := by
  obtain ⟨x, xs, rfl⟩ := List.exists_cons_of_ne_nil hne
  rcases h with h | ⟨d, h⟩
  · cases h
  · obtain ⟨below, d', rfl, hread⟩ := Codec.read_of_list_cons h
    have := hc hread
    omega

theorem chain_of_readAnswered {below : Nat} {d : Doc} {posts : List Post}
    (h : (readAnswered depth).read below d = .ok posts) :
    posts = [] ∨ ∃ m, read depth d = .ok m ∧ m.chain = posts := by
  simp only [readAnswered] at h
  split at h
  · cases h
    exact .inl rfl
  · exact .inr (Json.ok_of_map h)

/-- The posts of a message that was read fit. -/
theorem read_fits {d : Doc} {m : Message} (h : read depth d = .ok m) : Along Post.Fits depth m.chain := by
  induction depth generalizing d m with
  | zero => exact absurd h (read_zero_ne_ok d m)
  | succ depth ih =>
    rw [read_succ] at h
    obtain ⟨below, xs, hbelow, hsourced, rfl⟩ := Record.sourced_of_read h
    obtain rfl : depth = below := Nat.succ.inj hbelow
    obtain ⟨id, channel, guild, content, attachments, author, member, webhook, sent, edited, tts, everyone, mentions,
      roles, pinned, kind, answered, flags, nonce, ⟨⟩⟩ := xs
    obtain ⟨-, -, -, -, hattachments, hauthor, -, -, -, -, -, -, hmentions, -, -, -, hanswered, -⟩ := hsourced
    refine ⟨⟨?_, ?_, ?_⟩, ?_⟩
    · rcases hauthor with hauthor | ⟨d', hauthor⟩
      · cases hauthor
      · exact Record.pos_of_read hauthor
    · exact one_lt_of_sourced Record.pos_of_read hattachments
    · exact one_lt_of_sourced Record.pos_of_read hmentions
    · rcases hanswered with hanswered | ⟨d', hanswered⟩
      · cases hanswered
        exact along_nil
      · rcases chain_of_readAnswered hanswered with rfl | ⟨m, hread, rfl⟩
        · exact along_nil
        · exact ih hread

/-! ### What fits is read back -/

theorem names_nodup (answered : Codec (List Post)) : (record answered).fields.names.Nodup := by
  change (record (readAnswered 0)).fields.names.Nodup
  decide

@[simp] theorem lenientText_lawful : lenientText.Lawful n where
  whole
    | none => trivial
    | some s => trivial
  readsBack {depth}
    | none, _ => by cases depth <;> rfl
    | some s, _ => by cases depth <;> rfl

/-- A message written with what it answers, which is written already. -/
def writeOn (answered : Json) (m : Message) : Json :=
  (record ⟨fun _ _ => Json.malformed, fun _ => answered⟩).write m

theorem writeChain_cons (p : Post) (rest : List Post) : writeChain (p :: rest) = writeOn (writeChain rest) ⟨p, rest⟩ :=
  rfl

/-- A post that fits is read back, where the member that it shows and what it answers are read. -/
theorem read_writeOn {m : Message} (hp : m.post.Fits depth) :
    read (depth + 1) (writeOn answered m).toDoc = do
      let member ← Member.codec.option.read depth (Member.codec.option.write m.post.member).toDoc
      let posts ← (readAnswered depth).read depth answered.toDoc
      return ⟨{ m.post with member }, posts⟩ := by
  have hattachments := (Attachment.codec_lawful.list_readsBack hp.author hp.attachments).eq
  have hauthor := (User.codec_lawful.readsBack m.post.author hp.author).eq
  have hmentions := (User.codec_lawful.list_readsBack hp.author hp.mentions).eq
  have hroles := ((Codec.list_lawful Snowflake.codec_lawful).readsBack m.post.mentionRoles hp.author).eq
  have hmembers (c : Codec (List Post)) :
      ((record c).fields.write ((record c).parts m)).map Prod.fst = (record (readAnswered depth)).fields.names :=
    Json.Fields.map_fst_write _
  rw [read_succ, writeOn, Record.write, Record.read_members (names_nodup _) (hmembers _)]
  simp only [record, Json.Fields.write, Json.Fields.readEach, Json.Field.codec_required, Json.Field.codec_default,
    Json.Field.codec_optional, Codec.Lawful.read_write, Snowflake.codec_lawful, Snowflake.codec_present,
    Timestamp.codec_lawful, Timestamp.codec_present, Codec.option_lawful, Codec.text_lawful, Codec.flag_lawful,
    Codec.uint8_lawful, Codec.uint64_lawful, lenientText_lawful, hattachments, hauthor, hmentions, hroles, bind,
    Except.bind]
  cases Member.codec.option.read depth (Member.codec.option.write m.post.member).toDoc with
  | error e => rfl
  | ok member => cases (readAnswered depth).read depth answered.toDoc <;> rfl

/-- The member that the post shows, if any, can be written with its list of roles. -/
def MemberFits (depth : Nat) (p : Post) : Prop := p.member.isSome → 1 < depth

theorem read_member (h : MemberFits depth p) :
    Member.codec.option.read depth (Member.codec.option.write p.member).toDoc = .ok p.member := by
  cases hm : p.member with
  | none => rfl
  | some m =>
    have hdepth : 2 ≤ depth := h (by simp [hm])
    exact Codec.option_readsBack Member.codec_present (Member.codec_lawful.readsBack m hdepth)

theorem readAnswered_nil (below : Nat) : (readAnswered depth).read below (writeChain []).toDoc = .ok [] :=
  rfl

theorem readAnswered_cons (below : Nat) : (readAnswered depth).read below (writeChain (p :: rest)).toDoc =
    (read depth (writeChain (p :: rest)).toDoc).map chain :=
  rfl

/-- A chain that fits is read back as it was written. -/
theorem read_writeChain (hfits : Along Post.Fits depth (p :: rest)) (hmembers : Along MemberFits depth (p :: rest)) :
    read depth (writeChain (p :: rest)).toDoc = .ok ⟨p, rest⟩ := by
  induction rest generalizing depth p with
  | nil =>
    cases depth with
    | zero => cases hfits
    | succ depth =>
      rw [writeChain_cons, read_writeOn hfits.1, read_member hmembers.1, readAnswered_nil]
      rfl
  | cons q rest ih =>
    cases depth with
    | zero => cases hfits
    | succ depth =>
      rw [writeChain_cons p, read_writeOn hfits.1, read_member hmembers.1, readAnswered_cons, ih hfits.2 hmembers.2]
      rfl

theorem isWhole_writeOn (h : answered.IsWhole) (m : Message) : (writeOn answered m).IsWhole := by
  have hwhole {α : Type} {c : Codec α} (hc : c.Lawful 3) (x : α) : (c.write x).IsWhole := hc.whole x
  simp [writeOn, Record.write, record, Json.Fields.write, Json.IsWhole, Json.MembersWhole, hwhole, h]

theorem isWhole_writeChain (posts : List Post) : (writeChain posts).IsWhole := by
  induction posts with
  | nil => trivial
  | cons p rest ih => exact isWhole_writeOn ih ⟨p, rest⟩

/-! ### The last member of a chain as long as can be -/

/-- A chain is shorter than what it may be nested. -/
theorem Along.length_lt {P : Nat → Post → Prop} (hP : ∀ {depth p}, P depth p → 0 < depth) {posts : List Post}
    (h : Along P depth posts) (hne : posts ≠ []) : posts.length < depth := by
  induction posts generalizing depth with
  | nil => exact absurd rfl hne
  | cons p rest ih =>
    cases depth with
    | zero => cases h
    | succ depth =>
      have hpos := hP h.1
      by_cases hrest : rest = []
      · simpa [hrest] using hpos
      · have hlength := ih h.2 hrest
        simpa using hlength

/-- Only the last post of a chain as long as can be has no room for a member. -/
theorem along_memberFits {posts : List Post} (h : Along Post.Fits depth posts)
    (hlast : posts.length + 1 = depth → ∀ p ∈ posts.getLast?, p.member = none) : Along MemberFits depth posts := by
  induction posts generalizing depth with
  | nil => exact along_nil
  | cons p rest ih =>
    cases depth with
    | zero => cases h
    | succ depth =>
      obtain ⟨hp, hrest⟩ := h
      cases rest with
      | nil =>
        refine ⟨?_, along_nil⟩
        intro hshown
        have hpos := hp.author
        by_cases hdepth : 1 < depth
        · exact hdepth
        · have hnone := hlast (by simp; omega) p rfl
          simp [hnone] at hshown
      | cons q rest =>
        have hlength := hrest.length_lt Post.Fits.author (by simp)
        refine ⟨?_, ih hrest ?_⟩
        · intro _
          simp at hlength
          omega
        · intro hfull r hr
          exact hlast (by simpa using hfull) r hr

/-- A member is not read where its list of roles is nested too deep. -/
theorem read_member_one (m : Member) : Member.codec.read 1 (Member.codec.write m).toDoc = Json.malformed := by
  have hread : Member.record.read (0 + 1) (Member.record.write m).toDoc = _ :=
    Record.read_members (by decide) (Json.Fields.map_fst_write _)
  have hroles := Codec.list_read_zero Snowflake.codec m.roles
  refine hread.trans ?_
  cases hu : m.user with
  | some u =>
    simp only [Member.record, Json.Fields.write, Json.Fields.readEach, Json.Field.codec_optional, hu]
    rfl
  | none =>
    have huser : User.codec.option.read 0 (User.codec.option.write none).toDoc = .ok none := rfl
    simp only [Member.record, Json.Fields.write, Json.Fields.readEach, Json.Field.codec_default,
      Json.Field.codec_optional, Codec.Lawful.read_write, Codec.option_lawful, Snowflake.codec_lawful,
      Snowflake.codec_present, Codec.text_lawful, Codec.text_present, hu, huser, hroles, bind, Except.bind]
    rfl

/-- The last post of a chain as long as can be is not read back with a member. -/
theorem read_writeChain_full (hfits : Along Post.Fits depth (p :: rest)) (hlength : (p :: rest).length + 1 = depth)
    (hlast : ∃ q ∈ (p :: rest).getLast?, q.member.isSome) :
    read depth (writeChain (p :: rest)).toDoc = Json.malformed := by
  induction rest generalizing depth p with
  | nil =>
    obtain rfl : depth = 2 := hlength.symm
    obtain ⟨q, hq, hshown⟩ := hlast
    obtain rfl : p = q := by simpa using hq
    obtain ⟨m, hm⟩ := Option.isSome_iff_exists.1 hshown
    have hmember : Member.codec.option.read 1 (Member.codec.option.write (some m)).toDoc = _ :=
      Codec.option_read_some Member.codec_present m
    rw [writeChain_cons, read_writeOn hfits.1, hm, hmember, read_member_one]
    rfl
  | cons q rest ih =>
    obtain ⟨depth, rfl⟩ : ∃ d, depth = d + 1 := ⟨_, hlength.symm⟩
    have hdepth : rest.length + 1 + 1 = depth := by simpa using hlength
    have hmember : MemberFits depth p := fun _ => by omega
    rw [writeChain_cons p, read_writeOn hfits.1, read_member hmember, readAnswered_cons, ih hfits.2 hdepth hlast]
    rfl

end Message

end ChatApi
