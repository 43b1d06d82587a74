import YoinkCore.Lib.Base64
import YoinkCore.Lib.Bytes
import YoinkCore.Lib.Keyset
import YoinkCore.Lib.Written
import YoinkCore.Inbox.CatalogueStore

/-!
# The feed

The items of a user, newest first, page by page. A page that leaves items names the last of its own
in a cursor: the time as text with the number of the item. With a search text the rows are not
limited until the text has been looked for.
-/

namespace YoinkCore.Inbox

open Lib
open Text (Str)

/-! ## Input -/

structure Filters where
  cursor : Option Str
  limit : Option Nat
  status : Option String
  kind : Option String
  categoryId : Option Int
  uncategorized : Bool
  search : Option Str

/-! ## Rows -/

/-- `ORDER BY i.created_at DESC, i.id DESC` -/
def ItemRow.feedKey (i : ItemRow) : ℤ ×ₗ ℤ := toLex (i.createdAt, i.id)

namespace Filters

/-- The `WHERE` clause, but for the cursor. -/
def selects (f : Filters) (db : InboxDb) (user : Int) (i : ItemRow) : Bool :=
  decide (i.userId = user) &&
  (match f.status.filter (· ≠ "") with
    | some status => decide (i.status = status)
    | none => i.archivedAt.isNone) &&
  (match f.kind.filter (· ≠ "") with
    | some kind => decide (i.kind = kind)
    | none => true) &&
  (match f.categoryId with
    | some category => db.itemCategories.rows.any fun b =>
        decide (b.itemId = i.id) && db.categories.rows.any fun c =>
          decide (c.id = b.categoryId) && decide (c.id = category) && db.sees user c
    | none => !f.uncategorized || !db.itemCategories.rows.any fun b => decide (b.itemId = i.id))

def limitOr (f : Filters) : Nat := f.limit.getD 30

end Filters

/-- Whether an item is behind the cursor. -/
def behindCursor (cursor : Option (Int × Int)) (i : ItemRow) : Bool :=
  cursor.all fun (ts, id) =>
    decide (i.createdAt < ts) || (decide (i.createdAt = ts) && decide (i.id < id))

/-- The query, with its `LIMIT` if there is one. -/
def Sql.feed (db : InboxDb) (user : Int) (f : Filters) (cursor : Option (Int × Int))
    (limit : Option Nat) : List ItemRow :=
  let rows := Keyset.sorted ItemRow.feedKey (db.items.rows.filter fun i =>
    f.selects db user i && behindCursor cursor i)
  match limit with
  | none => rows
  | some n => rows.take n

/-! ## Patterns -/

inductive SearchToken where
  | any | one
  | literal (c : Char)
deriving DecidableEq

/-- The pattern of a text, behind a backslash or not. -/
def searchTokens : Bool → Str → Option (List SearchToken)
  | escape, [] => if escape then none else some []
  | true, c :: rest => (searchTokens false rest).map (.literal c :: ·)
  | false, c :: rest =>
      if c = '\\' then searchTokens true rest
      else if c = '%' then (searchTokens false rest).map (.any :: ·)
      else if c = '_' then (searchTokens false rest).map (.one :: ·)
      else (searchTokens false rest).map (.literal c :: ·)

/-- The whole text matches. -/
def isMatch : List SearchToken → Str → Bool
  | [], t => t.isEmpty
  | .any :: p, t => t.tails.any (isMatch p)
  | .one :: p, t =>
      match t with
      | [] => false
      | _ :: t => isMatch p t
  | .literal c :: p, t =>
      match t with
      | [] => false
      | d :: t => c == d && isMatch p t

def searchLength (search : Option Str) : Bool :=
  search.all fun s => decide (2 ≤ s.length) && decide (s.length ≤ 128)

/-- `search::validate` -/
def searchValidate (search : Option Str) : Except Error Unit :=
  if searchLength search then .ok () else .error .invalid

/-! ## Answers -/

/-- A category of an item, as the owner or a member of its team sees it. -/
structure ItemCategoryView where
  id : Int
  name : String
  slug : String
  color : Option String
  attachedBy : String
  confidence : Option Float

structure ItemView where
  id : Int
  url : String
  normalizedUrl : String
  kind : String
  source : String
  status : String
  title : Option String
  summary : Option String
  crawlStatus : Option String
  llmStatus : Option String
  ogImageUrl : Option String
  faviconUrl : Option String
  author : Option String
  publisher : Option String
  publishedAt : Option Str
  createdAt : Option Str
  modifiedAt : Option Str
  archivedAt : Option Str
  categories : List ItemCategoryView

/-- The categories of an item in the order of their numbers. -/
def InboxDb.categoriesOf (db : InboxDb) (user item : Int) : List ItemCategoryView :=
  let rows := (db.itemCategories.rows.filter fun b => decide (b.itemId = item)).flatMap fun b =>
    (db.categories.rows.filter fun c =>
      decide (c.id = b.categoryId) && db.sees user c).map fun c => (b, c)
  (rows.insertionSort fun r s => r.2.id ≤ s.2.id).map fun (b, c) =>
    ⟨c.id, c.name, c.slug, c.color, b.attachedBy, b.confidence⟩

structure Page where
  items : List ItemView
  nextCursor : Option Str

/-- How far a client has come. -/
inductive Ending where
  | ended
  | going (cursor : Option Str)
  | failed (e : Error)

/-- Times as text, and the letters of Unicode. -/
class FeedPlatform where
  /-- `DateTime::from_timestamp_micros`, then `to_rfc3339` -/
  rfc3339 : Int → Option Str
  /-- `DateTime::parse_from_rfc3339`, then `timestamp_micros` -/
  parseRfc3339 : Str → Option Int
  /-- `char::to_lowercase` -/
  toLowercase : Char → List Char

section

variable [FeedPlatform]

open FeedPlatform

/-! ## Cursors -/

def encodeCursor (timestamp id : Int) : Except Error Str :=
  match rfc3339 timestamp with
  | none => .error .invalid
  | some t =>
      .ok (Base64.encode (Bytes.ofText (String.ofList (t ++ '|' :: (toString id).toList))))

/-- The text behind a cursor, and the time and the number it is read as. -/
def decodeText (text : Str) : Option (Int × Int) := do
  let (t, id) ← Text.splitOnce ['|'] text
  let t ← parseRfc3339 t
  let id ← Text.parseSigned (-2 ^ 63) (2 ^ 63 - 1) id
  return (t, id)

def decodeCursor (raw : Option Str) : Except Error (Option (Int × Int)) :=
  match raw with
  | none => .ok none
  | some raw =>
      let pair := do
        let data ← Base64.decode (Text.trimEnd '=' raw)
        let text ← Bytes.text data
        decodeText text.toList
      match pair with
      | none => .error .invalid
      | some pair => .ok (some pair)

/-! ## Search -/

def lowerLetter (c : Char) : Char := (toLowercase c).headD c

/-- Letter by letter. -/
def lower (text : Str) : Str := text.map lowerLetter

def pattern (search : Str) : Option (List SearchToken) :=
  searchTokens false (lower ('%' :: search ++ ['%']))

/-- The fields that are searched. -/
def ItemRow.matches (i : ItemRow) (p : List SearchToken) : Bool :=
  [i.title, i.summary, some i.url].any fun field =>
    field.any fun s => isMatch p (lower s.toList)

def searchFilter (rows : List ItemRow) (search : Option Str) : Except Error (List ItemRow) :=
  match search.filter (· ≠ []) with
  | none => .ok rows
  | some s =>
      match pattern s with
      | none => .error .invalid
      | some p => .ok (rows.filter (·.matches p))

/-! ## Pages -/

namespace InboxDb

def itemView (db : InboxDb) (user : Int) (i : ItemRow) : ItemView where
  id := i.id
  url := i.url
  normalizedUrl := i.normalizedUrl
  kind := i.kind
  source := i.source
  status := i.status
  title := i.title
  summary := i.summary
  crawlStatus := i.crawlStatus
  llmStatus := i.llmStatus
  ogImageUrl := i.ogImageUrl
  faviconUrl := i.faviconUrl
  author := i.author
  publisher := i.publisher
  publishedAt := i.publishedAt.bind rfc3339
  createdAt := rfc3339 i.createdAt
  modifiedAt := rfc3339 i.modifiedAt
  archivedAt := i.archivedAt.bind rfc3339
  categories := db.categoriesOf user i.id

def item (db : InboxDb) (user id : Int) : Except Error ItemView :=
  match db.items.rows.find? fun i => decide (i.userId = user) && decide (i.id = id) with
  | none => .error .notFound
  | some i => .ok (db.itemView user i)

end InboxDb

def checkFilters (f : Filters) : Except Error Unit :=
  if !(decide (1 ≤ f.limitOr) && decide (f.limitOr ≤ 100)) || !searchLength f.search then
    .error .invalid
  else searchValidate f.search

/-- The cursor of the last row, when there is one more. -/
def nextCursor (limit : Nat) (rows : List ItemRow) : Except Error (Option Str) :=
  match rows[limit - 1]? with
  | some last =>
      if limit < rows.length then some <$> encodeCursor last.createdAt last.id else .ok none
  | none => .ok none

def feed (user : Int) (f : Filters) (db : InboxDb) : Except Error Page := do
  checkFilters f
  let cursor ← decodeCursor f.cursor
  let rows ← searchFilter
    (Sql.feed db user f cursor (if f.search.isSome then none else some (f.limitOr + 1))) f.search
  let items ← (rows.take f.limitOr).mapM fun i => db.item user i.id
  let next ← nextCursor f.limitOr rows
  return ⟨items, next⟩

/-- Ask for one page after the other, each of the database as it then is. -/
def follow (user : Int) (f : Filters) : Option Str → List InboxDb → List Page × Ending
  | cursor, [] => ([], .going cursor)
  | cursor, db :: later =>
      match feed user { f with cursor } db with
      | .error e => ([], .failed e)
      | .ok page =>
          match page.nextCursor with
          | none => ([page], .ended)
          | some next =>
              let (pages, ending) := follow user f (some next) later
              (page :: pages, ending)

end

end YoinkCore.Inbox
