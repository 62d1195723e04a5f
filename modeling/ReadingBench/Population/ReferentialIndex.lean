import ReadingBench.Population.Attribute
import Std.Data.TreeMap

namespace ReadingBench

/-- What reads have to know of users and articles: the region of each user and the language of each
article. -/
structure ReferentialIndex where
  regions : Std.TreeMap String Region
  languages : Std.TreeMap String Language

namespace ReferentialIndex

def empty : ReferentialIndex := ⟨∅, ∅⟩

def addUser (index : ReferentialIndex) (uid : String) (region : Region) : ReferentialIndex :=
  { index with regions := index.regions.insert uid region }

def addArticle (index : ReferentialIndex) (aid : String) (language : Language) : ReferentialIndex :=
  { index with languages := index.languages.insert aid language }

def regionOf? (index : ReferentialIndex) (uid : String) : Option Region := index.regions[uid]?

def languageOf? (index : ReferentialIndex) (aid : String) : Option Language := index.languages[aid]?

def userCount (index : ReferentialIndex) : Nat := index.regions.size

def articleCount (index : ReferentialIndex) : Nat := index.languages.size

end ReferentialIndex
end ReadingBench
