import StudyTech.Lib.Action
import StudyTech.Spec.Comment

/-!
# The comments of the blog

`CommentController` and `CommentServiceImp` over the table `t_comment`. What the database does besides is a
parameter: `accepts`, the constraints it checks on a write, and `order`, the order in which it gives rows
that are not sorted. Ids are from a sequence that the other tables use, too. A listing loads the replies to a
comment when it first reads them, and with them their blogs: if one is missing, it throws there. Replies are
loaded down to `rows.length` generations, which is as deep as they go (`Proof.CommentBoard`).
-/

namespace StudyTech

open Lib

/-- A row of `t_comment`. -/
structure CommentRow where
  id : ℤ
  nickname : Option String
  email : Option String
  content : Option String
  avatar : Option String
  createTime : ℤ
  blogId : Option ℤ
  parentCommentId : Option ℤ
  adminComment : Bool
  deriving DecidableEq, Repr

/-- The comment that is bound to a request; `blog` and `parentComment` are there when the request has a
parameter of theirs, with an id or without. -/
structure CommentForm where
  id : Option ℤ := none
  nickname : Option String := none
  email : Option String := none
  content : Option String := none
  avatar : Option String := none
  blog : Option (Option ℤ) := none
  parentComment : Option (Option ℤ) := none
  adminComment : Bool := false
  deriving DecidableEq, Repr

/-- What `post` throws. -/
inductive PostError
  | nullPointer
  | illegalArgument
  | dataIntegrity
  deriving DecidableEq, Repr

/-- What a listing throws: the blog of a comment is not there. -/
inductive ListError
  | entityNotFound
  deriving DecidableEq, Repr

structure CommentBoard where
  rows : List CommentRow
  nextId : ℤ
  service : CommentService

def CommentBoard.init : CommentBoard := ⟨[], 1, {}⟩

section Post

variable (accepts : List CommentRow → CommentRow → Bool)

/-- `commentRepository.save`: a comment whose id there is is merged into it, another is inserted. -/
def CommentBoard.save (board : CommentBoard) (id : Option ℤ) (row : ℤ → CommentRow) (seq : ℤ) :
    Except PostError CommentBoard :=
  match id.bind fun id => board.rows.find? fun old => decide (old.id = id) with
  | some old =>
    if accepts board.rows (row old.id) then
      .ok { board with rows := board.rows.map fun r => if r.id = old.id then row old.id else r }
    else .error .dataIntegrity
  | none =>
    if accepts board.rows (row seq) then .ok { board with rows := board.rows ++ [row seq], nextId := seq + 1 }
    else .error .dataIntegrity

/-- `saveComment`; `getOne` does not read the parent. -/
def CommentBoard.saveComment (board : CommentBoard) (comment : CommentForm) (now seq : ℤ) :
    Except PostError CommentBoard :=
  match comment.parentComment with
  | none => .error .nullPointer
  | some none => .error .nullPointer
  | some (some parentCommentId) =>
    let parentComment := if parentCommentId ≠ -1 then some parentCommentId else none
    board.save accepts comment.id (fun id => {
      id := id
      nickname := comment.nickname
      email := comment.email
      content := comment.content
      avatar := comment.avatar
      createTime := now
      blogId := comment.blog.join
      parentCommentId := parentComment
      adminComment := comment.adminComment }) seq

variable (avatar : String)

/-- `post`, for the user of the session, who may have an avatar. -/
def CommentBoard.post (board : CommentBoard) (comment : CommentForm) (user : Option (Option String)) (now seq : ℤ) :
    Except PostError CommentBoard :=
  match comment.blog with
  | none => .error .nullPointer
  | some none => .error .illegalArgument
  | some (some _) =>
    let comment := match user with
      | some userAvatar => { comment with avatar := userAvatar, adminComment := true }
      | none => { comment with avatar := some avatar }
    board.saveComment accepts comment now seq

end Post

section Listing

variable (order : List CommentRow → List CommentRow)

/-- `findByBlogIdAndParentCommentNull`. -/
def CommentBoard.findByBlogIdAndParentCommentNull (board : CommentBoard) (blogId : ℤ) : List CommentRow :=
  (order (board.rows.filter fun r => r.blogId = some blogId ∧ r.parentCommentId = none)).mergeSort
    fun a b => a.createTime ≤ b.createTime

/-- The rows of `replyComments`. -/
def replyRows (rows : List CommentRow) (row : CommentRow) : List CommentRow :=
  order (rows.filter fun r => r.parentCommentId = some row.id)

/-- The comment of a row with its replies, down to a number of generations. -/
def loadComment (rows : List CommentRow) : ℕ → CommentRow → Comment
  | 0, row => .mk row.id []
  | n + 1, row => .mk row.id ((replyRows order rows row).map (loadComment rows n))

variable (blogs : List ℤ)

/-- Comments are loaded with their blogs. -/
def loadRows (found : List CommentRow) : Action ListError CommentService (List CommentRow) :=
  if found.all fun r => r.blogId.all fun blogId => blogs.contains blogId then pure found else throw .entityNotFound

/-- `getReplyComments()`, down to a number of generations. -/
def loadReplys (rows : List CommentRow) : ℕ → CommentRow → Action ListError CommentService (List CommentRow)
  | 0, _ => pure []
  | _ + 1, row => loadRows blogs (replyRows order rows row)

/-- `tempReplys.add(comment)`. -/
def addTempReply (comment : Comment) : Action ListError CommentService Unit := fun service =>
  (.ok (), ⟨service.tempReplys ++ [comment]⟩)

/-- `tempReplys` is handed out, and a new list takes its place. -/
def takeTempReplys : Action ListError CommentService (List Comment) := fun service => (.ok service.tempReplys, {})

/-- `recursively`, where the replies are loaded. -/
def loadRecursively (rows : List CommentRow) : ℕ → CommentRow → Action ListError CommentService Unit
  | 0, row => addTempReply (loadComment order rows 0 row)
  | n + 1, row => do
    addTempReply (loadComment order rows (n + 1) row)
    let replys ← loadReplys order blogs rows (n + 1) row
    if 0 < replys.length then
      replys.forM fun reply => do
        addTempReply (loadComment order rows n reply)
        let replys ← loadReplys order blogs rows n reply
        if 0 < replys.length then loadRecursively rows n reply

/-- `combineChildren`, where the replies are loaded. -/
def loadChildren (rows : List CommentRow) : List CommentRow → Action ListError CommentService (List Comment)
  | [] => pure []
  | comment :: comments => do
    let replys1 ← loadReplys order blogs rows rows.length comment
    replys1.forM (loadRecursively order blogs rows (rows.length - 1))
    let replyComments ← takeTempReplys
    let commentsView ← loadChildren rows comments
    pure (.mk comment.id replyComments :: commentsView)

/-- `listCommentByBlogId`, while there are these blogs. -/
def CommentBoard.listCommentByBlogId (board : CommentBoard) (blogId : ℤ) :
    Except ListError (List Comment) × CommentService :=
  (do
    let comments ← loadRows blogs (board.findByBlogIdAndParentCommentNull order blogId)
    loadChildren order blogs board.rows comments) board.service

end Listing

/-- A request to `/comments`, with the time and the next id of the sequence, and one to
`/comments/{blogId}`, with the blogs that there are. -/
inductive BoardLabel
  | post (comment : CommentForm) (user : Option (Option String)) (now seq : ℤ)
  | list (blogId : ℤ) (blogs : List ℤ)
  deriving DecidableEq, Repr

def boardStep (accepts : List CommentRow → CommentRow → Bool) (order : List CommentRow → List CommentRow)
    (avatar : String) (board : CommentBoard) : BoardLabel → Option CommentBoard
  | .post comment user now seq =>
    if board.nextId ≤ seq then
      match board.post accepts avatar comment user now seq with
      | .ok board' => some board'
      | .error _ => some board
    else none
  | .list blogId blogs => some { board with service := (board.listCommentByBlogId order blogs blogId).2 }

end StudyTech
