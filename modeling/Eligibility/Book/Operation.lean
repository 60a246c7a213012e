import Eligibility.Book.Basic

namespace Eligibility

/-- What can be asked of a book. -/
inductive Operation where
  | create (name text : String)
  | get (id : UInt64)
  | list
  | evaluate (id : UInt64) (record : Record)
  | delete (id : UInt64)

/-- What a book replies to an operation. -/
inductive Answer where
  | created (entry : Entry)
  | found (entry : Option Entry)
  | listed (entries : List Entry)
  | verdict (value : Bool)
  | deleted
  | failed (error : BookError)
deriving DecidableEq

/-- Carries out one operation: the answer and the book as it is left. -/
def Book.perform (book : Book) : Operation → Answer × Book
  | .create name text =>
    match book.create name text with
    | .ok (entry, book) => (.created entry, book)
    | .error error => (.failed (.parse error), book)
  | .get id => (.found (book.get? id), book)
  | .list => (.listed book.list, book)
  | .evaluate id record =>
    match book.evaluate id record with
    | .ok value => (.verdict value, book)
    | .error error => (.failed error, book)
  | .delete id =>
    match book.delete id with
    | .ok book => (.deleted, book)
    | .error error => (.failed error, book)

/-- Carries out operations one after the other. -/
def Book.run (book : Book) : List Operation → List Answer × Book
  | [] => ([], book)
  | operation :: rest =>
    let (answer, book) := book.perform operation
    let (answers, book) := book.run rest
    (answer :: answers, book)

end Eligibility
