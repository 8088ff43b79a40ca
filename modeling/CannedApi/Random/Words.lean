/-!
# Word lists

The items that random values are made of.
-/

namespace CannedApi.Random.Words

def firstNames : List String :=
  ["Alice", "Bruno", "Chloe", "Diego", "Elena", "Felix", "Grace", "Hiro", "Isla", "Jonas",
    "Keira", "Liam", "Maya", "Noah", "Olivia", "Pablo", "Quinn", "Rosa", "Sam", "Tara", "Umar",
    "Vera", "Wes", "Yara", "Zane"]

def lastNames : List String :=
  ["Anderson", "Baker", "Chen", "Dubois", "Evans", "Fischer", "Garcia", "Hughes", "Ito",
    "Johnson", "Kowalski", "Lopez", "Miller", "Nakamura", "Okafor", "Patel", "Rossi", "Schmidt",
    "Turner", "Walsh", "Young"]

def filler : List String :=
  ["lorem", "ipsum", "dolor", "sit", "amet", "consectetur", "adipiscing", "elit", "sed", "do",
    "eiusmod", "tempor", "incididunt", "ut", "labore", "et", "dolore", "magna", "aliqua", "enim",
    "ad", "minim", "veniam", "quis", "nostrud", "exercitation", "ullamco", "laboris", "nisi",
    "aliquip", "commodo", "consequat", "aute", "irure", "voluptate", "velit", "esse"]

/-- domains of mail addresses -/
def mailDomains : List String :=
  ["example.com", "example.org", "mail.test", "inbox.test"]

/-- top-level domains -/
def topDomains : List String :=
  ["com", "org", "net", "io", "dev"]

/-- what stands behind a family name in the name of a company -/
def companyEndings : List String :=
  ["Inc", "LLC", "Group", "and Sons", "Labs", "Partners"]

/-- what stands behind a family name in the name of a street -/
def streetEndings : List String :=
  ["Street", "Avenue", "Road", "Lane", "Boulevard", "Way", "Court"]

def cities : List String :=
  ["Springfield", "Riverton", "Lakeside", "Fairview", "Greenville", "Madison", "Georgetown",
    "Franklin", "Clinton", "Ashland", "Oakridge", "Brookfield"]

def countries : List String :=
  ["Argentina", "Australia", "Brazil", "Canada", "Denmark", "Egypt", "France", "Germany",
    "India", "Japan", "Kenya", "Mexico", "Norway", "Portugal", "Singapore", "Spain"]

def colors : List String :=
  ["red", "green", "blue", "yellow", "purple", "orange", "teal", "magenta", "olive", "navy",
    "maroon", "silver", "gold", "indigo", "violet", "turquoise"]

end CannedApi.Random.Words
