/-
  Pipes: bytes go in at one end and come out at the other in the same order.

  A pipe has a fixed number of pages.  A write first fills up the last page, if
  what goes beyond whole pages fits there, and takes new pages for the rest; it
  ends early when there are no more pages.  A page is free again when all of
  it has been read.

  * `Pipe.write` says how many bytes were taken, `Pipe.read` gives the oldest.
-/
import ScopedResources.Bytes

namespace ScopedResources

/-- A page of a pipe: how many of its bytes have been read, and the others. -/
structure Page where
  start : Nat
  bytes : Bytes
  deriving DecidableEq, Repr

/-- A pipe: its pages, the oldest first. -/
structure Pipe where
  pages : List Page
  deriving DecidableEq, Repr

namespace Pipe

def pageSize : Nat := 4096

def pageLimit : Nat := 16

/-- A pipe without anything in it. -/
def empty : Pipe := ⟨[]⟩

/-- The bytes in a pipe, in the order in which they will be read. -/
def contents (p : Pipe) : Bytes :=
  p.pages.flatMap (·.bytes)

/-- The first `count` bytes of some pages, and the pages without them. -/
def takePages : Nat → List Page → Bytes × List Page
  | _, [] => ([], [])
  | 0, pages => ([], pages)
  | count, page :: pages =>
    if page.bytes.length ≤ count then
      let (bytes, rest) := takePages (count - page.bytes.length) pages
      (page.bytes ++ bytes, rest)
    else
      (page.bytes.take count, ⟨page.start + count, page.bytes.drop count⟩ :: pages)

/-- Reads up to `limit` bytes. -/
def read (p : Pipe) (limit : Nat) : Bytes × Pipe :=
  let (bytes, pages) := takePages limit p.pages
  (bytes, ⟨pages⟩)

/-- Fills up the last page with the part of some bytes that goes beyond whole
    pages, if it fits; gives the pages and the bytes that are left. -/
def fillLast (pages : List Page) (bytes : Bytes) : List Page × Bytes :=
  let extra := bytes.length % pageSize
  match pages.getLast? with
  | some last =>
    if extra ≠ 0 ∧ last.start + last.bytes.length + extra ≤ pageSize then
      (pages.dropLast ++ [⟨last.start, last.bytes ++ bytes.take extra⟩], bytes.drop extra)
    else (pages, bytes)
  | none => (pages, bytes)

/-- New pages for some bytes, at most `room` of them; gives the pages and the
    bytes that are left. -/
def newPages : Nat → Bytes → List Page × Bytes
  | 0, bytes => ([], bytes)
  | room + 1, bytes =>
    if bytes = [] then ([], [])
    else
      let (pages, left) := newPages room (bytes.drop pageSize)
      (⟨0, bytes.take pageSize⟩ :: pages, left)

/-- Writes as many bytes as fit, and says how many that are. -/
def write (p : Pipe) (bytes : Bytes) : Nat × Pipe :=
  let (pages, rest) := fillLast p.pages bytes
  let (added, left) := newPages (pageLimit - pages.length) rest
  (bytes.length - left.length, ⟨pages ++ added⟩)

end Pipe

end ScopedResources
