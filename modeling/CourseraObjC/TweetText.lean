import CourseraObjC.UTF16

/-! The text of a tweet. Two programs cut what was typed down to 140 code units, each with code
of its own. -/
namespace CourseraObjC
namespace TweetText

open UTF16

abbrev NSString := List UInt16

inductive RangeException
  | rangeException
  deriving DecidableEq

def substringToIndex (string : NSString) (index : ℕ) : Except RangeException NSString :=
  if index ≤ string.length then .ok (string.take index) else .error .rangeException

inductive ServiceType
  | SLServiceTypeTwitter | SLServiceTypeFacebook
  deriving DecidableEq

inductive Presented
  | composeViewController (serviceType : ServiceType) (initialText : NSString)
  | alertController (title message : String)
  deriving DecidableEq

namespace SocialShare

def showAlertMessage (myMessage : String) : Presented := .alertController "Social Share" myMessage

def getInitialText (text : NSString) : Except RangeException NSString :=
  if text.length < 140 then .ok text else substringToIndex text 140

/-- The service that is asked for is not the one that is used. -/
def twitterButtonTapped (isAvailableForServiceType : ServiceType → Bool) (text : NSString) :
    Except RangeException Presented :=
  if isAvailableForServiceType .SLServiceTypeFacebook then do
    let initialText ← getInitialText text
    pure (.composeViewController .SLServiceTypeTwitter initialText)
  else pure (showAlertMessage "You are not signed to twitter")

end SocialShare

namespace TwitterShare

def showAlertMessage (myMessage : String) : Presented := .alertController "Social Share" myMessage

/-- As in the other program, the service asked for is Facebook. -/
def tweetAction (isAvailableForServiceType : ServiceType → Bool) (text : NSString) :
    Except RangeException Presented :=
  if isAvailableForServiceType .SLServiceTypeFacebook then
    if text.length < 140 then pure (.composeViewController .SLServiceTypeTwitter text)
    else do
      let shortText ← substringToIndex text 140
      pure (.composeViewController .SLServiceTypeTwitter shortText)
  else pure (showAlertMessage "You are not signed in to twitter")

end TwitterShare

/-- What is shared of a text: its beginning, not too much of it, all of a short one, and no
half of a character. -/
structure Shares (text shared : NSString) : Prop where
  beginning : shared <+: text
  short : shared.length ≤ 140
  whole : text.length ≤ 140 → shared = text
  wellFormed : WellFormed shared

variable {text : NSString}

/-- Both branches are one: the first 140 units, or all where there are fewer. -/
theorem getInitialText_eq (text : NSString) :
    SocialShare.getInitialText text = .ok (text.take 140) := by
  rw [SocialShare.getInitialText,substringToIndex]
  split_ifs with hshort hlong
  · rw [List.take_of_length_le (Nat.le_of_lt hshort)]
  · rfl
  · omega

theorem twitterButtonTapped_eq {isAvailableForServiceType : ServiceType → Bool}
    (havailable : isAvailableForServiceType .SLServiceTypeFacebook = true) (text : NSString) :
    SocialShare.twitterButtonTapped isAvailableForServiceType text =
      .ok (.composeViewController .SLServiceTypeTwitter (text.take 140)) := by
  rw [SocialShare.twitterButtonTapped,if_pos havailable,getInitialText_eq]
  rfl

theorem tweetAction_eq {isAvailableForServiceType : ServiceType → Bool}
    (havailable : isAvailableForServiceType .SLServiceTypeFacebook = true) (text : NSString) :
    TwitterShare.tweetAction isAvailableForServiceType text =
      .ok (.composeViewController .SLServiceTypeTwitter (text.take 140)) := by
  rw [TwitterShare.tweetAction,if_pos havailable,substringToIndex]
  split_ifs with hshort hlong
  · rw [List.take_of_length_le (Nat.le_of_lt hshort)]
    rfl
  · rfl
  · omega

theorem wellFormed_take_iff (h : WellFormed text) :
    WellFormed (text.take 140) ↔ ∀ u, text[139]? = some u → ¬ IsHigh u := by
  by_cases hlong : 140 ≤ text.length
  · obtain ⟨v,hv⟩ : ∃ v, text[139]? = some v := ⟨_,List.getElem?_eq_getElem (by omega)⟩
    rw [h.take_iff,List.getLast?_take]
    simp [hv]
  · have hnone : text[139]? = none := List.getElem?_eq_none (by omega)
    rw [List.take_of_length_le (by omega)]
    simp [h,hnone]

/-- Both programs share the same beginning of every well-formed text; it is as it should be
exactly if the 140th unit is not the first half of a pair. -/
theorem shares_iff (h : WellFormed text) :
    (∃ shared, SocialShare.getInitialText text = .ok shared ∧
      (∀ isAvailableForServiceType : ServiceType → Bool,
        isAvailableForServiceType .SLServiceTypeFacebook = true →
          SocialShare.twitterButtonTapped isAvailableForServiceType text =
              .ok (.composeViewController .SLServiceTypeTwitter shared) ∧
            TwitterShare.tweetAction isAvailableForServiceType text =
              .ok (.composeViewController .SLServiceTypeTwitter shared)) ∧
      Shares text shared) ↔
      ∀ u, text[139]? = some u → ¬ IsHigh u := by
  rw [← wellFormed_take_iff h,getInitialText_eq]
  constructor
  · rintro ⟨shared,hshared,_,hshares⟩
    obtain rfl := Except.ok.inj hshared
    exact hshares.wellFormed
  · intro hwellFormed
    refine ⟨text.take 140,rfl,fun _ havailable => ?_,?_⟩
    · exact ⟨twitterButtonTapped_eq havailable text,tweetAction_eq havailable text⟩
    · exact ⟨List.take_prefix 140 text,List.length_take_le 140 text,List.take_of_length_le,hwellFormed⟩

def longText : NSString := List.replicate 139 0x61++[0xD83D,0xDE00]

theorem wellFormed_longText : WellFormed longText :=
  (wellFormed_replicate (by decide) (by decide) 139).append (.pair (by decide) (by decide) .nil)

theorem shares_shortText :
    ∃ shared, SocialShare.getInitialText [0x48,0x69,0xD83D,0xDE00] = .ok shared ∧
      (∀ isAvailableForServiceType : ServiceType → Bool,
        isAvailableForServiceType .SLServiceTypeFacebook = true →
          SocialShare.twitterButtonTapped isAvailableForServiceType [0x48,0x69,0xD83D,0xDE00] =
              .ok (.composeViewController .SLServiceTypeTwitter shared) ∧
            TwitterShare.tweetAction isAvailableForServiceType [0x48,0x69,0xD83D,0xDE00] =
              .ok (.composeViewController .SLServiceTypeTwitter shared)) ∧
      Shares [0x48,0x69,0xD83D,0xDE00] shared := by
  have htext : WellFormed [0x48,0x69,0xD83D,0xDE00] :=
    .unit (by decide) (by decide) (.unit (by decide) (by decide)
      (.pair (by decide) (by decide) .nil))
  exact (shares_iff htext).mpr (by simp)

/-- The character at the end is cut in half. -/
theorem longText_cut_in_half :
    WellFormed longText ∧ ∃ shared, SocialShare.getInitialText longText = .ok shared ∧
      ¬ WellFormed shared := by
  refine ⟨wellFormed_longText,_,getInitialText_eq longText,?_⟩
  rw [wellFormed_take_iff wellFormed_longText]
  exact fun h => h 0xD83D rfl (by decide)

end TweetText
end CourseraObjC
