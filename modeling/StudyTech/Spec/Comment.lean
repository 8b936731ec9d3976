import Mathlib.Data.Int.Notation
import Mathlib.Data.List.Basic
import Mathlib.Tactic.Common

/-!
# `CommentServiceImp`

A comment has its replies, as the repository loads them; of its other fields, which are only copied,
there is the id. `tempReplys` is a field of the service: the methods are handed what is in it, and
give back what is in it afterwards.
-/

namespace StudyTech

inductive Comment
  | mk (id : ℤ) (replyComments : List Comment)

namespace Comment

def id : Comment → ℤ
  | mk id _ => id

def replyComments : Comment → List Comment
  | mk _ replyComments => replyComments

mutual

/-- `recursively`, with the comments that `tempReplys` has afterwards. -/
def recursively (tempReplys : List Comment) : Comment → List Comment
  | mk id replys =>
    let tempReplys := tempReplys ++ [mk id replys]
    if 0 < replys.length then recursivelyReplys tempReplys replys else tempReplys

/-- The loop of `recursively`: a reply is added here, and again by its own call. -/
def recursivelyReplys (tempReplys : List Comment) : List Comment → List Comment
  | [] => tempReplys
  | reply :: replys =>
    let tempReplys := tempReplys ++ [reply]
    recursivelyReplys (if 0 < reply.replyComments.length then recursively tempReplys reply else tempReplys) replys

end

end Comment

/-- `combineChildren`: the comments with their replies set, and `tempReplys`. -/
def combineChildren (tempReplys : List Comment) : List Comment → List Comment × List Comment
  | [] => ([], tempReplys)
  | comment :: comments =>
    let tempReplys := comment.replyComments.foldl Comment.recursively tempReplys
    -- the next comment starts with a new list
    let (rest, tempReplys') := combineChildren [] comments
    (Comment.mk comment.id tempReplys :: rest, tempReplys')

/-- `eachComment`: the views are copies of the comments. -/
def eachComment (tempReplys comments : List Comment) : List Comment × List Comment :=
  let commentsView := comments.map fun comment => Comment.mk comment.id comment.replyComments
  combineChildren tempReplys commentsView

/-- `CommentServiceImp`, with its field. -/
structure CommentService where
  tempReplys : List Comment := []

/-- `listCommentByBlogId`, for the comments that the repository finds. -/
def CommentService.listCommentByBlogId (service : CommentService) (found : List Comment) :
    List Comment × CommentService :=
  ((eachComment service.tempReplys found).1, ⟨(eachComment service.tempReplys found).2⟩)

end StudyTech
