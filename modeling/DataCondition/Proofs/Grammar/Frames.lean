import DataCondition.Proofs.Grammar.Basic
import DataCondition.Proofs.Token.Depth

/-!
# Reading derivations token by token

Tokens are read from the last one to the first. What has been read is kept in frames, one for each
closing parenthesis that waits for its opening one and one for the outside, the innermost first. A
row of tokens is a disjunction exactly if reading it leaves one whole frame.
-/

namespace DataCondition

namespace Grammar

/-- What has been read between the place of the reader and the next closing parenthesis. -/
inductive Frame where
  /-- Nothing yet, so that a term is due. -/
  | blank
  /-- A connective and what follows it, so that a term is due. -/
  | linked (link : Connective) (later : Disjunction)
  /-- A disjunction, so that a connective is due or the frame is over. -/
  | whole (disjunction : Disjunction)

namespace Frame

/-- The tokens of a frame. -/
def tokens : Frame → List Token
  | .blank => []
  | .linked link later => .connective link :: later.tokens
  | .whole disjunction => disjunction.tokens

/-- The disjunction that a term makes of what follows it, if a term is due. -/
def before? (term : Term) : Frame → Option Disjunction
  | .blank => some (.last (.last term))
  | .linked .and later => some (later.prepend term)
  | .linked .or later => some (.or (.last term) later)
  | .whole _ => none

/-- The frame that the disjuncts of a row leave in front of them: there may be none. -/
def ofLater : Option Disjunction → Frame
  | none => .blank
  | some later => .linked .or later

/-- The tokens of frames, with the closing parentheses between them. -/
def tokensAll : List Frame → List Token
  | [] => []
  | [frame] => frame.tokens
  | frame :: outer => frame.tokens ++ .closing :: tokensAll outer

/-- Reads a token in front of the frames. -/
def step : Token → List Frame → Option (List Frame)
  | .atom text, frame :: outer => (frame.before? (.test text)).map fun read => .whole read :: outer
  | .connective link, .whole later :: outer => some (.linked link later :: outer)
  | .closing, frames => some (.blank :: frames)
  | .opening, .whole inner :: frame :: outer =>
    (frame.before? (.group inner)).map fun read => .whole read :: outer
  | _, _ => none

/-- Reads tokens in front of the frames, the last token first. -/
def read : List Token → List Frame → Option (List Frame)
  | [], frames => some frames
  | token :: rest, frames => read rest frames >>= step token

theorem read_append (front back : List Token) (frames : List Frame) :
    read (front ++ back) frames = read back frames >>= read front := by
  induction front with
  | nil =>
      rw [List.nil_append]
      cases read back frames with
      | none => rfl
      | some middle => rfl
  | cons token rest induction =>
      rw [List.cons_append, read, induction]
      cases read back frames with
      | none => rfl
      | some middle => rfl

end Frame

/-- A conjunction in front of further disjuncts. -/
def Conjunction.followed (conjunction : Conjunction) : Option Disjunction → Disjunction
  | none => .last conjunction
  | some later => .or conjunction later

/-- A disjunction in front of further disjuncts. -/
def Disjunction.followed (later : Option Disjunction) : Disjunction → Disjunction
  | .last conjunction => conjunction.followed later
  | .or first others => .or first (others.followed later)

@[simp]
theorem Disjunction.followed_none (disjunction : Disjunction) :
    disjunction.followed none = disjunction := by
  induction disjunction using Disjunction.followed.induct with
  | case1 conjunction => rfl
  | case2 first others induction => rw [Disjunction.followed, induction]

/-! A derivation is what reading its tokens finds, whatever stands around them. -/

mutual

theorem Disjunction.read_tokens (outer : List Frame) : ∀ (disjunction : Disjunction)
    (later : Option Disjunction), Frame.read disjunction.tokens (.ofLater later :: outer) =
      some (.whole (disjunction.followed later) :: outer)
  | .last conjunction, later => Conjunction.read_tokens outer conjunction later
  | .or first others, later => by
      have back := Disjunction.read_tokens outer others later
      have front := Conjunction.read_tokens outer first (some (others.followed later))
      rw [Disjunction.tokens, Frame.read_append, Frame.read, back]
      exact front

theorem Conjunction.read_tokens (outer : List Frame) : ∀ (conjunction : Conjunction)
    (later : Option Disjunction), Frame.read conjunction.tokens (.ofLater later :: outer) =
      some (.whole (conjunction.followed later) :: outer)
  | .last term, later => by
      rw [Conjunction.tokens, Term.read_tokens outer term (.ofLater later)]
      cases later with
      | none => rfl
      | some later => rfl
  | .and first others, later => by
      have back := Conjunction.read_tokens outer others later
      have front := Term.read_tokens outer first (.linked .and (others.followed later))
      rw [Conjunction.tokens, Frame.read_append, Frame.read, back]
      refine front.trans ?_
      cases later with
      | none => rfl
      | some later => rfl

theorem Term.read_tokens (outer : List Frame) : ∀ (term : Term) (frame : Frame),
    Frame.read term.tokens (frame :: outer) =
      (frame.before? term).map fun read => .whole read :: outer
  | .test _, _ => rfl
  | .group inner, frame => by
      have inside := Disjunction.read_tokens (frame :: outer) inner none
      rw [Term.tokens, List.cons_append, Frame.read, Frame.read_append]
      change (Frame.read inner.tokens (.blank :: frame :: outer) >>= Frame.step .opening) = _
      rw [show Frame.blank = .ofLater none from rfl, inside, inner.followed_none]
      rfl

end

/-! The tokens that have been read are those of the frames. -/

theorem Disjunction.tokens_prepend (term : Term) (disjunction : Disjunction) :
    (disjunction.prepend term).tokens = term.tokens ++ .connective .and :: disjunction.tokens := by
  cases disjunction with
  | last conjunction => rfl
  | or first later => simp [Disjunction.prepend, Disjunction.tokens, Conjunction.tokens]

namespace Frame

theorem tokens_of_before? {term : Term} {frame : Frame} {read : Disjunction}
    (due : frame.before? term = some read) :
    (whole read).tokens = term.tokens ++ frame.tokens := by
  cases frame with
  | blank =>
      obtain rfl := Option.some.inj due
      simp [tokens, Disjunction.tokens, Conjunction.tokens]
  | linked link later =>
      cases link with
      | and =>
          obtain rfl := Option.some.inj due
          exact later.tokens_prepend term
      | or =>
          obtain rfl := Option.some.inj due
          rfl
  | whole disjunction => cases due

theorem tokensAll_cons {top frame : Frame} {front : List Token} (outer : List Frame)
    (same : top.tokens = front ++ frame.tokens) :
    tokensAll (top :: outer) = front ++ tokensAll (frame :: outer) := by
  cases outer with
  | nil => exact same
  | cons next outer => simp [tokensAll, same]

/-- A closing parenthesis opens a frame, an opening one ends it. -/
theorem length_of_step {token : Token} {frames after : List Frame}
    (moved : step token frames = some after) :
    after ≠ [] ∧
      after.length + [token].count .opening = frames.length + [token].count .closing := by
  unfold step at moved
  split at moved
  next =>
    obtain ⟨read, due, rfl⟩ := Option.map_eq_some_iff.mp moved
    simp
  next =>
    obtain rfl := Option.some.inj moved
    simp
  next =>
    obtain rfl := Option.some.inj moved
    simp
  next =>
    obtain ⟨read, due, rfl⟩ := Option.map_eq_some_iff.mp moved
    simp
  next => cases moved

theorem tokensAll_step {token : Token} {frames after : List Frame} (nonempty : frames ≠ [])
    (moved : step token frames = some after) : tokensAll after = token :: tokensAll frames := by
  cases token with
  | atom text =>
      obtain _ | ⟨frame, outer⟩ := frames
      · cases moved
      · obtain ⟨read, due, rfl⟩ := Option.map_eq_some_iff.mp moved
        exact tokensAll_cons outer (tokens_of_before? due)
  | connective link =>
      obtain _ | ⟨_ | _ | later, outer⟩ := frames
      case cons.whole =>
        obtain rfl := Option.some.inj moved
        have spelled : (linked link later).tokens =
            [.connective link] ++ (whole later).tokens := rfl
        exact tokensAll_cons outer spelled
      all_goals cases moved
  | opening =>
      obtain _ | ⟨_ | _ | inner, _ | ⟨frame, outer⟩⟩ := frames
      case cons.whole.cons =>
        obtain ⟨read, due, rfl⟩ := Option.map_eq_some_iff.mp moved
        rw [tokensAll_cons outer (tokens_of_before? due)]
        simp [Term.tokens, tokensAll, tokens]
      all_goals cases moved
  | closing =>
      obtain rfl := Option.some.inj moved
      obtain _ | ⟨frame, outer⟩ := frames
      · exact absurd rfl nonempty
      · rfl

/-- What has been read is what the frames hold. -/
theorem tokensAll_of_read {tokens : List Token} {frames after : List Frame} (nonempty : frames ≠ [])
    (run : read tokens frames = some after) :
    after ≠ [] ∧ tokensAll after = tokens ++ tokensAll frames := by
  induction tokens generalizing after with
  | nil =>
      obtain rfl := Option.some.inj run
      exact ⟨nonempty, rfl⟩
  | cons token rest induction =>
      obtain ⟨middle, before, moved⟩ := Option.bind_eq_some_iff.mp run
      obtain ⟨present, held⟩ := induction before
      refine ⟨(length_of_step moved).1, ?_⟩
      rw [tokensAll_step present moved, held, List.cons_append]

/-- Tokens are read as one whole frame exactly if they are those of its disjunction. -/
theorem read_eq_whole_iff {tokens : List Token} {disjunction : Disjunction} :
    read tokens [.blank] = some [.whole disjunction] ↔ disjunction.tokens = tokens := by
  constructor
  · intro run
    have held := (tokensAll_of_read (List.cons_ne_nil _ _) run).2
    simpa [tokensAll, Frame.tokens] using held
  · rintro rfl
    have run := disjunction.read_tokens [] none
    rwa [disjunction.followed_none] at run

theorem length_of_read {tokens : List Token} {frames after : List Frame}
    (run : read tokens frames = some after) :
    after.length + tokens.count .opening = frames.length + tokens.count .closing := by
  induction tokens generalizing after with
  | nil =>
      obtain rfl := Option.some.inj run
      rfl
  | cons token rest induction =>
      obtain ⟨middle, before, moved⟩ := Option.bind_eq_some_iff.mp run
      have earlier := induction before
      have last := (length_of_step moved).2
      rw [← List.singleton_append, List.count_append, List.count_append]
      omega

/-! What stands around balanced tokens has no part in how they are read. -/

/-- The frame in front of further disjuncts. -/
def followed (later : Option Disjunction) : Frame → Frame
  | .blank => .ofLater later
  | .linked link others => .linked link (others.followed later)
  | .whole disjunction => .whole (disjunction.followed later)

theorem before?_followed (term : Term) (frame : Frame) (later : Option Disjunction) :
    (frame.followed later).before? term =
      (frame.before? term).map (Disjunction.followed later) := by
  cases frame with
  | blank => cases later <;> rfl
  | linked link others =>
      cases link with
      | or => rfl
      | and =>
          cases others with
          | last conjunction => cases later <;> rfl
          | or first others => rfl
  | whole disjunction => rfl

/-- Frames with others around them, the outermost one of them in front of further disjuncts. -/
inductive Inside (later : Option Disjunction) (outer : List Frame) :
    List Frame → List Frame → Prop where
  | outermost (frame : Frame) : Inside later outer [frame] (frame.followed later :: outer)
  | inner (frame : Frame) {frames around : List Frame} (inside : Inside later outer frames around) :
    Inside later outer (frame :: frames) (frame :: around)

variable {later : Option Disjunction} {outer : List Frame}

/-- A term is read by the innermost frame alone. -/
theorem Inside.before {term : Term} {frame : Frame} {rest : List Frame} {top : Frame}
    {below : List Frame} {read : Disjunction}
    (inside : Inside later outer (frame :: rest) (top :: below))
    (due : top.before? term = some read) : ∃ alone, frame.before? term = some alone ∧
      Inside later outer (.whole alone :: rest) (.whole read :: below) := by
  cases inside with
  | outermost =>
      rw [before?_followed] at due
      obtain ⟨alone, found, rfl⟩ := Option.map_eq_some_iff.mp due
      exact ⟨alone, found, .outermost (.whole alone)⟩
  | inner _ inside => exact ⟨read, due, .inner _ inside⟩

theorem Inside.step_connective {link : Connective} {frames around after : List Frame}
    (inside : Inside later outer frames around)
    (moved : Frame.step (.connective link) around = some after) :
    ∃ alone, Frame.step (.connective link) frames = some alone ∧
      Inside later outer alone after := by
  cases inside with
  | outermost frame =>
      cases frame with
      | blank => cases later <;> cases moved
      | linked _ others => cases moved
      | whole disjunction =>
          obtain rfl := Option.some.inj moved
          exact ⟨[.linked link disjunction], rfl, .outermost (.linked link disjunction)⟩
  | inner frame inside =>
      cases frame with
      | whole disjunction =>
          obtain rfl := Option.some.inj moved
          exact ⟨_, rfl, .inner (.linked link disjunction) inside⟩
      | blank => cases moved
      | linked _ others => cases moved

theorem Inside.step_opening {frames around after : List Frame}
    (inside : Inside later outer frames around) (several : 2 ≤ frames.length)
    (moved : Frame.step .opening around = some after) :
    ∃ alone, Frame.step .opening frames = some alone ∧ Inside later outer alone after := by
  cases inside with
  | outermost frame => exact absurd several (by simp)
  | @inner first frames below inside =>
      obtain _ | ⟨frame, rest⟩ := frames
      · cases inside
      · obtain _ | ⟨top, below⟩ := below
        · cases inside
        · cases first with
          | whole inner =>
              obtain ⟨read, due, rfl⟩ := Option.map_eq_some_iff.mp moved
              obtain ⟨alone, found, still⟩ := inside.before due
              exact ⟨.whole alone :: rest, by rw [Frame.step, found]; rfl, still⟩
          | blank => cases moved
          | linked _ others => cases moved

/-- Frames that are read on stay inside, as long as their outermost one is not closed. -/
theorem Inside.step {token : Token} {frames around after : List Frame}
    (inside : Inside later outer frames around) (several : token = .opening → 2 ≤ frames.length)
    (moved : Frame.step token around = some after) :
    ∃ alone, Frame.step token frames = some alone ∧ Inside later outer alone after := by
  cases token with
  | closing =>
      obtain rfl := Option.some.inj moved
      exact ⟨.blank :: frames, rfl, .inner .blank inside⟩
  | atom text =>
      obtain _ | ⟨frame, rest⟩ := frames
      · cases inside
      · obtain _ | ⟨top, below⟩ := around
        · cases moved
        · obtain ⟨read, due, rfl⟩ := Option.map_eq_some_iff.mp moved
          obtain ⟨alone, found, still⟩ := inside.before due
          exact ⟨.whole alone :: rest, by rw [Frame.step, found]; rfl, still⟩
  | connective link => exact inside.step_connective moved
  | opening => exact inside.step_opening (several rfl) moved

/-- Tokens that open no more parentheses than they close are read for themselves. -/
theorem exists_inside {tokens : List Token} {after : List Frame}
    (covered : ∀ back, back <:+ tokens → back.count .opening ≤ back.count .closing)
    (run : read tokens (.ofLater later :: outer) = some after) :
    ∃ alone, read tokens [.blank] = some alone ∧ Inside later outer alone after := by
  induction tokens generalizing after with
  | nil =>
      obtain rfl := Option.some.inj run
      exact ⟨[.blank], rfl, .outermost .blank⟩
  | cons token rest induction =>
      obtain ⟨middle, before, moved⟩ := Option.bind_eq_some_iff.mp run
      obtain ⟨frames, alone_run, inside⟩ :=
        induction (fun back suffix => covered back (suffix.trans (List.suffix_cons _ _))) before
      -- an opening parenthesis never ends the outermost frame: its partner has been read
      have several : token = .opening → 2 ≤ frames.length := by
        rintro rfl
        have whole := covered _ List.suffix_rfl
        have frames_length := length_of_read alone_run
        simp at whole frames_length
        omega
      obtain ⟨alone, alone_step, still⟩ := inside.step several moved
      exact ⟨alone, Option.bind_eq_some_iff.mpr ⟨frames, alone_run, alone_step⟩, still⟩

/-- Balanced tokens are read in one frame, whatever follows them. -/
theorem exists_frame_of_balanced {tokens : List Token} {after : List Frame}
    (later : Option Disjunction) (balanced : Token.IsBalanced tokens)
    (run : read tokens (.ofLater later :: outer) = some after) :
    ∃ frame : Frame, frame.tokens = tokens ∧ after = frame.followed later :: outer := by
  obtain ⟨alone, alone_run, inside⟩ := exists_inside balanced.count_suffix run
  have single := length_of_read alone_run
  have held := (tokensAll_of_read (List.cons_ne_nil _ _) alone_run).2
  have closed := balanced.closed
  cases inside with
  | outermost frame => exact ⟨frame, by simpa [tokensAll, Frame.tokens] using held, rfl⟩
  | @inner frame frames around inside =>
      cases inside <;> simp at single <;> omega

end Frame

end Grammar

end DataCondition
