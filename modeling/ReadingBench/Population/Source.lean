import ReadingBench.Decimal.Whole
import ReadingBench.Population.Content
import ReadingBench.Population.Distributions
import ReadingBench.Population.ReferentialIndex
import ReadingBench.Record.Article
import ReadingBench.Record.Read
import ReadingBench.Record.User

namespace ReadingBench

open ReadingBench.Random

/-- What becomes of a candidate, with the state of the source after it. -/
inductive Offer (σ ρ : Type) where
  | accepted (record : ρ) (state : σ)
  | rejected (state : σ)
  /-- The candidate's time is outside the calendar. -/
  | outOfRange

/-- A source is asked for candidate after candidate, each with its index and with the id that the record takes
if it is accepted. Draws are made in a fixed order, so that a seed determines all records. -/
abbrev Source (σ ρ : Type) := (index id : Nat) → σ → Offer σ ρ

/-- The signed number that a word stands for. -/
def signedWord (n : Nat) : Int := (UInt64.ofNat n).toInt64.toInt

/-- The day on which candidate `index` falls when `total` records are spread over a number of days. -/
def spreadOffset (index total : Nat) (spreadDays : Int64) : Int :=
  if total = 0 then 0
  else
    let part := (UInt64.ofNat index).toFloat / (UInt64.ofNat total).toFloat
    Decimal.wholePart (part * Decimal.floatOfInt spreadDays.toInt)

/-- The random numbers of a source, and the index of what it has made so far. -/
structure Growing where
  stream : Stream
  index : ReferentialIndex

structure UserSource where
  dists : Distributions
  baseTime : DateTime

namespace UserSource

def draw (source : UserSource) (index id : Nat) (timestamp : DateTime) : Draw User := do
  let region ← source.dists.region.draw
  let gender ← source.dists.gender.draw
  let phone ← Draw.uint64 1000000000 9999999999
  let dept ← Draw.int32 0 19
  let grade ← Draw.int32 1 4
  let language ← source.dists.userLanguage.draw
  let role ← Draw.int32 0 2
  let preferTags ← Draw.tags 3
  let obtainedCredits ← Draw.uint32 0 99
  return {
    id := UInt64.ofNat id, uid := uidOf index, timestamp, name := numbered "user" index, gender
    email := numbered "user" index ++ "@example.com", phone := numbered "+1" phone.toNat
    dept := numbered "dept" dept.toInt.toNat, grade := numbered "grade" grade.toInt.toNat, language
    region, role := numbered "role" role.toInt.toNat, preferTags, obtainedCredits }

/-- Users come a second apart. -/
def offer (source : UserSource) : Source Growing User := fun index id state =>
  match source.baseTime.addSeconds? (signedWord index) with
  | none => .outOfRange
  | some timestamp =>
    let (user, stream) := source.draw index id timestamp state.stream
    .accepted user ⟨stream, state.index.addUser user.uid user.region⟩

end UserSource

structure ArticleSource where
  dists : Distributions
  baseTime : DateTime
  total : Nat
  spreadDays : Int64
  /-- How many articles from the first have a video. -/
  withVideo : Nat

namespace ArticleSource

def abstractOf (index : Nat) (category : Category) : String :=
  numbered "Abstract for article " index ++ ": A comprehensive overview of " ++
    Attribute.text category ++ " topics."

def sentence (index : Nat) (category : Category) (topic : TextTopic) : String :=
  numbered "Full text content for article " index ++ " in category " ++ Attribute.text category ++
    " (text from " ++ Attribute.text topic ++ "). "

def path (index : Nat) (file : String) : String := numbered "/articles/article" index ++ "/" ++ file

/-- The language and the time of an article are drawn first. -/
def drawTime (source : ArticleSource) (index : Nat) : Draw (Language × Option DateTime) := do
  let language ← source.dists.articleLanguage.draw
  let hours ← Draw.int64 0 23
  let minutes ← Draw.int64 0 59
  let day := spreadOffset index source.total source.spreadDays
  return (language, do
    let time ← source.baseTime.addDays? day
    let time ← time.addHours? hours.toInt
    time.addMinutes? minutes.toInt)

def draw (source : ArticleSource) (index id : Nat) (language : Language) (timestamp : DateTime) :
    Draw Article := do
  let category := categoryOf (UInt64.ofNat index)
  let tagCount ← Draw.uint64 1 5
  let title ← Draw.letters 20
  let articleTags ← Draw.tags tagCount.toNat
  let authors ← Draw.authors
  return {
    id := UInt64.ofNat id, aid := aidOf index, category, timestamp
    title := numbered "Article Title " index ++ ": " ++ title
    abstractText := abstractOf index category, articleTags, authors, language
    text := String.join (List.replicate 50 (sentence index category (topicOf (UInt64.ofNat index))))
    textPath := path index "text.txt", imagePath := path index "image.jpg"
    videoPath := if index < source.withVideo then some (path index "video.mp4") else none }

def offer (source : ArticleSource) : Source Growing Article := fun index id state =>
  match source.drawTime index state.stream with
  | ((_, none), _) => .outOfRange
  | ((language, some timestamp), stream) =>
    let (article, stream) := source.draw index id language timestamp stream
    .accepted article ⟨stream, state.index.addArticle article.aid article.language⟩

end ArticleSource

/-- Reads draw from an index that no longer grows. -/
structure ReadSource where
  baseTime : DateTime
  users : Nat
  articles : Nat
  total : Nat
  spreadDays : Int64
  index : ReferentialIndex

/-- The random numbers of the source, and how many candidates had a user or an article that is not in
the index. -/
structure Reading where
  stream : Stream
  fallbacks : Nat

namespace ReadSource

/-- A user missing from the index counts as from here. -/
def fallbackRegion : Region := .beijing

/-- An article missing from the index counts as in this language. -/
def fallbackLanguage : Language := .en

/-- A user and an article, and the number that decides whether the one reads the other. -/
def drawPair (source : ReadSource) : Draw (String × String × Float) := do
  let user ← Draw.position (UInt64.ofNat source.users)
  let article ← Draw.position (UInt64.ofNat source.articles)
  let chance ← Draw.unit
  return (uidOf user.toNat, aidOf article.toNat, chance)

def drawTime (source : ReadSource) (index : Nat) : Draw (Option DateTime) := do
  let hours ← Draw.int64 0 23
  let minutes ← Draw.int64 0 59
  let seconds ← Draw.int64 0 59
  let day := spreadOffset index source.total source.spreadDays
  return do
    let time ← source.baseTime.addDays? day
    let time ← time.addHours? hours.toInt
    let time ← time.addMinutes? minutes.toInt
    time.addSeconds? seconds.toInt

def flag (b : Bool) : UInt8 := if b then 1 else 0

def draw (id : Nat) (uid aid : String) (region : Region) (odds : ReadProbabilities)
    (timestamp : DateTime) : Draw Read := do
  let readTimeLength ← Draw.uint32 1 300
  let agree ← Draw.unit
  let comment ← Draw.unit
  let share ← Draw.unit
  let comments := comment < odds.comment
  return {
    id := UInt64.ofNat id, uid, aid, timestamp, region, readTimeLength
    agreeOrNot := flag (agree < odds.agree), commentOrNot := flag comments
    commentDetail :=
      if comments then some ("Comment on article " ++ aid ++ " by user " ++ uid) else none
    shareOrNot := flag (share < odds.share) }

/-- Without users or articles every candidate is rejected, and nothing is drawn for it. -/
def offer (source : ReadSource) : Source Reading Read := fun index id state =>
  if source.users = 0 ∨ source.articles = 0 then .rejected state
  else
    let ((uid, aid, chance), stream) := source.drawPair state.stream
    let region := source.index.regionOf? uid
    let language := source.index.languageOf? aid
    let fallbacks := state.fallbacks + if region.isNone ∨ language.isNone then 1 else 0
    let odds := ReadProbabilities.ofPair (region.getD fallbackRegion) (language.getD fallbackLanguage)
    if odds.read < chance then .rejected ⟨stream, fallbacks⟩
    else
      match source.drawTime index stream with
      | (none, _) => .outOfRange
      | (some timestamp, stream) =>
        let (read, stream) := draw id uid aid (region.getD fallbackRegion) odds timestamp stream
        .accepted read ⟨stream, fallbacks⟩

end ReadSource
end ReadingBench
