import Mathlib.Logic.Function.Basic
import StudyTech.Lib.IdTable
import StudyTech.Lib.JavaLong

/-!
# Blogs, their tags and their views

`BlogController`, `BlogServiceImp` and `TagServiceImp.listTag` over the tables of blogs and tags. A post is a
transaction: an edit reads the blog, and writes all of its columns at the end. A view is one statement. The
database lets no tag go that a blog has, and takes no blog with a tag that is gone; whatever else it refuses
is a rollback. The types and the comments have no tables here.
-/

namespace StudyTech

open Lib

/-- A row of `t_blog` without its id, with the ids of its tags. -/
structure BlogRow where
  title : Option String
  content : Option String
  firstPicture : Option String
  flag : Option String
  views : Option ℤ
  appreciation : Bool
  shareStatement : Bool
  commentable : Bool
  published : Bool
  recommend : Bool
  createTime : Option ℤ
  updateTime : Option ℤ
  type : Option ℤ
  tags : List ℤ
  user : Option ℤ
  description : Option String
  deriving DecidableEq, Repr

/-- The blog that is bound to a request; `type` is there when the request has a parameter of it, with an id
or without. -/
structure BlogForm where
  id : Option ℤ := none
  title : Option String := none
  content : Option String := none
  firstPicture : Option String := none
  flag : Option String := none
  views : Option ℤ := none
  appreciation : Bool := false
  shareStatement : Bool := false
  commentable : Bool := false
  published : Bool := false
  recommend : Bool := false
  createTime : Option ℤ := none
  type : Option (Option ℤ) := none
  tagIds : Option String := none
  description : Option String := none
  deriving DecidableEq, Repr

/-- What `post` throws. -/
inductive BlogError
  | nullPointer
  | illegalArgument
  | numberFormat
  | entityNotFound
  deriving DecidableEq, Repr

/-- The loop of `tagsToIds`; `flag` says that there is an id in the buffer. -/
def tagsToIdsLoop (flag : Bool) (ids : String) : List ℤ → String
  | [] => ids
  | tag :: tags => tagsToIdsLoop true ((if flag then ids ++ "," else ids) ++ longText tag) tags

/-- `tagsToIds`; without tags `tagIds` stays as it is. -/
def tagsToIds (tagIds : Option String) (tags : List ℤ) : Option String :=
  if tags ≠ [] then some (tagsToIdsLoop false "" tags) else tagIds

/-- The `tagIds` that the page of the blog has after `init`; a blog that was loaded had none. -/
def BlogRow.init (blog : BlogRow) : Option String := tagsToIds none blog.tags

/-- The loop of `convertToList`. -/
def convertLoop : List String → Except BlogError (List ℤ)
  | [] => .ok []
  | id :: ids =>
    match parseLong id with
    | some n => (convertLoop ids).map (n :: ·)
    | none => .error .numberFormat

def convertToList (ids : Option String) : Except BlogError (List ℤ) :=
  match ids with
  | none => .ok []
  | some ids => if ids = "" then .ok [] else convertLoop (splitComma ids)

/-- `listTag(ids)`: the tags there are, in the order of the table. -/
def listTag (table : List ℤ) (ids : Option String) : Except BlogError (List ℤ) :=
  (convertToList ids).map fun list => table.filter (· ∈ list)

/-- `copyProperties(blog, b, getNullPropertyNames(blog))`, and the time of the update. -/
def BlogForm.copyProperties (blog : BlogForm) (type : ℤ) (tags : List ℤ) (user : Option ℤ) (now : ℤ) (b : BlogRow) :
    BlogRow where
  title := blog.title.or b.title
  content := blog.content.or b.content
  firstPicture := blog.firstPicture.or b.firstPicture
  flag := blog.flag.or b.flag
  views := blog.views.or b.views
  appreciation := blog.appreciation
  shareStatement := blog.shareStatement
  commentable := blog.commentable
  published := blog.published
  recommend := blog.recommend
  createTime := blog.createTime.or b.createTime
  updateTime := some now
  type := some type
  tags := tags
  user := user.or b.user
  description := blog.description.or b.description

/-- `saveBlog`, of a blog without an id. -/
def BlogForm.newBlog (blog : BlogForm) (type : ℤ) (tags : List ℤ) (user : Option ℤ) (now : ℤ) : BlogRow where
  title := blog.title
  content := blog.content
  firstPicture := blog.firstPicture
  flag := blog.flag
  views := some 0
  appreciation := blog.appreciation
  shareStatement := blog.shareStatement
  commentable := blog.commentable
  published := blog.published
  recommend := blog.recommend
  createTime := some now
  updateTime := some now
  type := some type
  tags := tags
  user := user
  description := blog.description

/-- The tables, the ids that the sequence has given, and the blog that the transaction of each request is about
to write, with its id if it is an edit. No step reads `viewed`: the number of the views of a blog since it
was saved. -/
structure BlogStore (ρ : Type) where
  blogs : List (ℤ × BlogRow)
  tags : List ℤ
  usedIds : List ℤ
  writing : ρ → Option (Option ℤ × BlogRow)
  viewed : ℤ → ℕ

def BlogStore.init (ρ : Type) : BlogStore ρ := ⟨[], [], [], fun _ => none, fun _ => 0⟩

/-- A request posts a blog, and its transaction is committed or rolled back; `seq` is what the sequence gives.
A blog is viewed or deleted, and tags come and go. -/
inductive BlogLabel (ρ : Type)
  | post (r : ρ) (blog : BlogForm) (user : Option ℤ) (now : ℤ)
  | commit (r : ρ) (seq : ℤ)
  | rollback (r : ρ)
  | view (id : ℤ)
  | delete (id : ℤ)
  | addTag (seq : ℤ)
  | removeTag (id : ℤ)
  deriving DecidableEq, Repr

variable {ρ : Type}

/-- `post`, up to the end of the transaction: the id and the row that it writes. -/
def BlogStore.post (store : BlogStore ρ) (blog : BlogForm) (user : Option ℤ) (now : ℤ) :
    Except BlogError (Option ℤ × BlogRow) :=
  match blog.type with
  | none => .error .nullPointer
  | some none => .error .illegalArgument
  | some (some type) =>
    match listTag store.tags blog.tagIds with
    | .error e => .error e
    | .ok tags =>
      match blog.id with
      | none => .ok (none, blog.newBlog type tags user now)
      | some id =>
        match findRow store.blogs id with
        | none => .error .entityNotFound
        | some b => .ok (some id, blog.copyProperties type tags user now b)

/-- The statement of `updateViews`. -/
def BlogRow.updateViews (b : BlogRow) : BlogRow := { b with views := b.views.map (· + 1) }

def blogStep [DecidableEq ρ] (store : BlogStore ρ) : BlogLabel ρ → Option (BlogStore ρ)
  | .post r blog user now =>
    if store.writing r = none then
      match store.post blog user now with
      | .ok work => some { store with writing := Function.update store.writing r (some work) }
      | .error _ => some store
    else none
  | .commit r seq =>
    match store.writing r with
    | none => none
    | some (none, b) =>
      if seq ∉ store.usedIds ∧ ∀ t ∈ b.tags, t ∈ store.tags then
        some { store with
          blogs := store.blogs ++ [(seq, b)]
          usedIds := seq :: store.usedIds
          writing := Function.update store.writing r none
          viewed := Function.update store.viewed seq 0 }
      else none
    | some (some id, b) =>
      if id ∈ store.blogs.map Prod.fst ∧ ∀ t ∈ b.tags, t ∈ store.tags then
        some { store with
          blogs := alterRow store.blogs id fun _ => b
          writing := Function.update store.writing r none }
      else none
  | .rollback r => some { store with writing := Function.update store.writing r none }
  | .view id =>
    if id ∈ store.blogs.map Prod.fst then
      some { store with
        blogs := alterRow store.blogs id BlogRow.updateViews
        viewed := Function.update store.viewed id (store.viewed id + 1) }
    else some store
  | .delete id => some { store with blogs := store.blogs.filter fun p => p.1 ≠ id }
  | .addTag seq =>
    if seq ∉ store.usedIds ∧ IsLong seq then
      some { store with tags := store.tags ++ [seq], usedIds := seq :: store.usedIds }
    else none
  | .removeTag id =>
    if ∀ p ∈ store.blogs, id ∉ p.2.tags then some { store with tags := store.tags.filter (· ≠ id) } else some store

end StudyTech
