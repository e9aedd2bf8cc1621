import DataCondition.Proofs.Token.Normal
import DataCondition.Token.Reading

/-!
# Which words a token comes from

A row of words is read as tokens if it can be cut into the words of each token.
-/

namespace DataCondition

namespace Token

/-- The word of a role that only one word has. -/
def Role.word? : Role → Option Text
  | .connective link => some link.word
  | .opening => some Word.opening
  | .closing => some Word.closing
  | .membership operator => some operator.word
  | .plain => none

theorem word_of_role {word expected : Text} {found : Role} (is : role word = found)
    (only : found.word? = some expected) : word = expected := by
  rw [← is] at only
  unfold role at only
  split at only
  next is => exact is.trans (Option.some.inj only)
  split at only
  next is => exact is.trans (Option.some.inj only)
  split at only
  next is => exact is.trans (Option.some.inj only)
  split at only
  next is => exact is.trans (Option.some.inj only)
  split at only
  next is => exact is.trans (Option.some.inj only)
  split at only
  next is => exact is.trans (Option.some.inj only)
  next => cases only

theorem isSolid_of_plain {word : Text} (normal : Word.IsNormal word) (plain : role word = .plain) :
    Word.IsSolid word :=
  @Word.IsNormal.isSolid word normal (role · = .plain) plain (by decide) (by decide)

/-- The words from which a test is read: a plain word, or those of a test with a list after them. -/
inductive Tests : List Text → Text → Prop
  | plain {word} (role : role word = .plain) : Tests [word] word
  | membership {words subject} (before : Tests words subject) (operator : Membership)
      (items : List Text) (unclosed : Word.closing ∉ items) :
      Tests (words ++ operator.word :: Word.opening :: (items ++ [Word.closing]))
        (membershipText subject operator items)

/-- The words from which a token is read. -/
inductive Spells : List Text → Token → Prop
  | atom {words text} (test : Tests words text) : Spells words (.atom text)
  | connective (link : Connective) : Spells [link.word] (.connective link)
  | opening : Spells [Word.opening] .opening
  | closing : Spells [Word.closing] .closing

/-- The words from which a row of tokens is read, the last token first. -/
inductive Consumed : List Text → List Token → Prop
  | nil : Consumed [] []
  | next {words done more token} (before : Consumed words done) (spells : Spells more token) :
      Consumed (words ++ more) (token :: done)

theorem Consumed.exists_tests {words : List Text} {done : List Token}
    (consumed : Consumed words done) {text : Text} (member : .atom text ∈ done) :
    ∃ part, Tests part text ∧ ∀ word ∈ part, word ∈ words := by
  induction consumed with
  | nil => simp at member
  | @next words done more token before spells induction =>
      rcases List.mem_cons.mp member with rfl | earlier
      · cases spells with
        | atom tests => exact ⟨more, tests, fun _ inside => List.mem_append_right _ inside⟩
      · obtain ⟨part, tests, within⟩ := induction earlier
        exact ⟨part, tests, fun word inside => List.mem_append_left _ (within word inside)⟩

mutual

theorem consumed_of_read {position : Nat} {done tokens : List Token} {before : List Text}
    (words : List Text) (accepted : read position done words = .ok tokens)
    (consumed : Consumed before done) : Consumed (before ++ words) tokens.reverse := by
  match words with
  | [] =>
      obtain rfl := Except.ok.inj accepted
      rwa [List.append_nil, List.reverse_reverse]
  | word :: rest =>
      rw [List.append_cons]
      rw [read] at accepted
      split at accepted
      next link is =>
        rw [word_of_role is rfl]
        exact consumed_of_read rest accepted (consumed.next (.connective link))
      next is =>
        rw [word_of_role is rfl]
        exact consumed_of_read rest accepted (consumed.next .opening)
      next is =>
        rw [word_of_role is rfl]
        exact consumed_of_read rest accepted (consumed.next .closing)
      next is => exact consumed_of_read rest accepted (consumed.next (.atom (.plain is)))
      next operator is =>
        rw [word_of_role is rfl]
        split at accepted
        next subject earlier =>
          split at accepted
          · cases accepted
          next following rest =>
            split at accepted
            next opens =>
              obtain _ | ⟨first, ⟨test⟩⟩ := consumed
              have list := consumed_of_readList rest accepted first test List.not_mem_nil
              rw [opens]
              simpa using list
            next => cases accepted
        next => cases accepted
termination_by words.length

theorem consumed_of_readList {position opened : Nat} {subject : Text} {operator : Membership}
    {items test before : List Text} {done tokens : List Token} (words : List Text)
    (accepted : readList position opened subject operator items done words = .ok tokens)
    (consumed : Consumed before done) (tests : Tests test subject)
    (unclosed : Word.closing ∉ items) :
    Consumed (before ++ (test ++ operator.word :: Word.opening :: (items.reverse ++ words)))
      tokens.reverse := by
  match words with
  | [] => cases accepted
  | word :: rest =>
      rw [readList] at accepted
      split at accepted
      next closes =>
        have whole := tests.membership operator items.reverse (by simpa using unclosed)
        have read := consumed_of_read rest accepted (consumed.next (.atom whole))
        rw [closes]
        simpa using read
      next kept =>
        have list := consumed_of_readList rest accepted consumed tests
          (List.not_mem_cons_of_ne_of_not_mem (Ne.symm kept) unclosed)
        simpa using list
termination_by words.length

end

end Token

/-- The tokens of a condition come from all of its words, in order. -/
theorem Condition.consumed_of_tokens {condition : Text} {tokens : List Token}
    (accepted : Condition.tokens condition = .ok tokens) :
    Token.Consumed (Condition.words condition) tokens.reverse :=
  Token.consumed_of_read _ accepted .nil

end DataCondition
