import Redline.Document.Image

/-!
# Bullets to recreate

A nested item of a list is written as a paragraph that starts with a tab. Bullets have to be created
over a whole run of neighbouring items at once for the tabs to count, so runs with such paragraphs
are found and their bullets are created again.
-/

namespace Redline

/-- What counts of a paragraph of the body for its bullets. -/
structure Item where
  start : Int
  stop : Int
  startsWithTab : Bool
  /-- The list style of the item, if it has a bullet. -/
  preset? : Option Preset
deriving Repr, DecidableEq

namespace Item

/-- The item has a bullet. -/
def hasBullet (i : Item) : Bool :=
  i.preset?.isSome

/-- The item belongs to a run: it has a bullet or waits for one. -/
def isListed (i : Item) : Bool :=
  i.startsWithTab || i.hasBullet

/-- The item waits for a bullet. -/
def isPending (i : Item) : Bool :=
  i.startsWithTab && !i.hasBullet

end Item

/-- A run of items whose bullets are created together. -/
structure BulletRun where
  start : Int
  stop : Int
  preset : Preset
  /-- Some item of the run starts with a tab. -/
  hasTab : Bool
deriving Repr, DecidableEq

namespace BulletRun

/-- The run of one item; without a style of its own it gets discs. -/
def ofItem (i : Item) : BulletRun :=
  ⟨i.start, i.stop - 1, i.preset?.getD .disc, i.startsWithTab⟩

/-- The item can join the run: it has no style, or that of the run. -/
def accepts (r : BulletRun) (i : Item) : Bool :=
  i.preset?.all (· == r.preset)

/-- The run with one more item. -/
def add (r : BulletRun) (i : Item) : BulletRun :=
  { r with stop := i.stop - 1, hasTab := r.hasTab || i.startsWithTab }

/-- The runs of items, with the run that is still open. -/
def collect : Option BulletRun → List Item → List BulletRun
  | current, [] => current.toList
  | current, i :: rest =>
    if !i.isListed then current.toList ++ collect none rest
    else match current with
      | none => collect (some (ofItem i)) rest
      | some r =>
        if r.accepts i then collect (some (r.add i)) rest
        else r :: collect (some (ofItem i)) rest

/-- The run up to a limit, if it has a tab and does not become empty. -/
def within? (limit : Int) (r : BulletRun) : Option BulletRun :=
  let stop := min r.stop limit
  if r.hasTab && r.start < stop then some { r with stop } else none

/-- Take the bullets of the run away and create them over all of it. -/
def requests (r : BulletRun) : List Request :=
  [.deleteBullets ⟨r.start, r.stop⟩, .createBullets ⟨r.start, r.stop⟩ r.preset]

end BulletRun

namespace Document

/-- The style of a list by its name. -/
def presetOf (d : Document) (list : Text) : Preset :=
  if (lookup? list d.lists).getD false then .numbered else .disc

/-- The paragraphs of the body with their bullets. -/
def items (d : Document) : List Item :=
  d.topParagraphs.map fun p =>
    { start := p.bounds.start
      stop := p.bounds.stop
      startsWithTab := p.paragraph.firstRun?.any (Text.startsWith ['\t'])
      preset? := p.paragraph.list?.map d.presetOf }

/-- Some paragraph waits for a bullet. -/
def hasPendingBullets (d : Document) : Bool :=
  d.items.any (·.isPending)

/-- The runs whose bullets have to be created again. -/
def bulletRuns (d : Document) : List BulletRun :=
  if d.hasPendingBullets then
    (BulletRun.collect none d.items).filterMap (BulletRun.within? (d.bodyEnd - 1))
  else []

end Document

end Redline
