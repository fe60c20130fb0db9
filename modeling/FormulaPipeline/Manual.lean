import FormulaPipeline.Text.Casing

/-!
# The manual

An overview and one page for each topic, as lines of text.
-/

namespace FormulaPipeline

/-- A topic of the manual. -/
inductive Topic where
  | writing
  | operators
  | filters
  | aggregations
  | functions
  | pipelines
  | nodes
  deriving DecidableEq, Repr

namespace Topic

def all : List Topic := [writing, operators, filters, aggregations, functions, pipelines, nodes]

/-- The names under which a topic is found. -/
def names : Topic → List String
  | writing => ["syntax"]
  | operators => ["operators", "ops"]
  | filters => ["filters", "filter", "segment"]
  | aggregations => ["aggregations", "aggregation", "synthesize"]
  | functions => ["functions", "function", "builtins"]
  | pipelines => ["pipelines", "pipeline", "steps"]
  | nodes => ["nodes", "node", "graph", "workbooks"]

def hyphenToUnderscore (c : Char) : Char := if c = '-' then '_' else c

/-- The topic that a name stands for, in any case. -/
def ofName? (name : String) : Option Topic :=
  let folded := String.ofList ((Text.toLower name.toList).map hyphenToUnderscore)
  all.find? fun topic => topic.names.contains folded

end Topic

namespace Manual

/-- The list of topics. -/
def overviewLines : List String :=
  ["PIPEFORM DOCUMENTATION",
    "",
    "Pipeform compiles spreadsheet-style formulas into pipelines of six operators",
    "(CONNECT, SEGMENT, DESIGNATE, SYNTHESIZE, ALTER, NULL) and evaluates them",
    "against records, relational sets and other named formulas.",
    "",
    "DOCUMENTATION CATEGORIES",
    "",
    "  syntax            Field references, node references, literals and calls",
    "  operators         Arithmetic and comparison operators, precedence",
    "  filters           [field OP value] conditions on references",
    "  aggregations      .SUM() .COUNT() .CONCAT() and friends",
    "  functions         The builtin function library",
    "  pipelines         The six operators and the persisted JSON format",
    "  nodes             Named nodes, dependencies, caching and workbooks",
    "",
    "QUICK REFERENCE",
    "",
    "  \x7bAmount\x7d                  Field of the current record",
    "  #Orders                   Node or relational set",
    "  #Orders[Status = \"open\"]  Filtered records",
    "  #Orders.Total.SUM()       Project, then aggregate",
    "  IF(\x7bScore\x7d > 50, \"a\", \"b\")  Function call",
    "",
    "Run 'pipeform doc <category>' for detailed documentation."]

/-- References and literals. -/
def writingLines : List String :=
  ["SYNTAX - References and Literals",
    "",
    "FIELD REFERENCE",
    "  \x7bName\x7d",
    "    A field of the current record. Anything up to the closing brace is the",
    "    field name, so spaces are allowed.",
    "",
    "    Example:",
    "      Record:  \x7b\"Unit Price\": 4, \"Qty\": 3\x7d",
    "      Formula: \x7bUnit Price\x7d * \x7bQty\x7d",
    "      Output:  12",
    "",
    "  Name",
    "    A bare identifier is also a field reference, except for true, false and",
    "    null (any case), which are literals.",
    "",
    "NODE REFERENCE",
    "  #Name",
    "  #\x7bName With Spaces\x7d",
    "    Another named node, a relational set, or the records linked from the",
    "    current record through the field Name. Resolved in that order.",
    "",
    "LITERALS",
    "  \"text\" or 'text'      Escapes: \\n \\t \\r; any other escaped character is kept",
    "  42, 3.5               Integers stay integers",
    "  true, false, null",
    "",
    "FUNCTION CALLS",
    "  NAME(arg, ...)",
    "    Function names are case-insensitive. See 'pipeform doc functions'.",
    "",
    "  source.NAME(args)",
    "    Method style: the same as NAME(source, args).",
    "",
    "    Example:",
    "      \x7bTitle\x7d.UPPER()   is   UPPER(\x7bTitle\x7d)",
    "",
    "PROPERTY ACCESS",
    "  source.Name",
    "    Reads Name from a record, or from every record of a collection.",
    "",
    "    Example:",
    "      #Orders.Total     =>  [12, 30, 7]"]

/-- Arithmetic and comparison. -/
def operatorLines : List String :=
  ["OPERATORS - Arithmetic and Comparison",
    "",
    "PRECEDENCE (lowest first)",
    "  = == != <> < <= > >=    Comparison (not chained)",
    "  + -                     Additive",
    "  * / %                   Multiplicative",
    "  -x                      Unary minus",
    "  ^                       Power (right-associative)",
    "  .                       Property, aggregation, method call",
    "",
    "ARITHMETIC",
    "  Integers stay integers when the result is whole; mixed arithmetic is",
    "  computed in exact decimals.",
    "",
    "    10 / 2     =>  5",
    "    10 / 4     =>  2.5",
    "    0.1 + 0.2  =>  0.3",
    "    2 ^ 10     =>  1024",
    "",
    "  Null operands count as zero. Numeric text is coerced (\"4\" + 1 => 5).",
    "",
    "  Division or modulo by zero is an error:",
    "    \x7bX\x7d / 0    =>  null, error \"Division by zero\"",
    "",
    "TEXT",
    "  + concatenates when either side is text that is not a number:",
    "    \"Order #\" + 7  =>  \"Order #7\"",
    "",
    "COMPARISON",
    "  Numbers compare numerically, text compares lexically, = and != fall back",
    "  to comparing text renderings.",
    "",
    "    \x7bScore\x7d > 50           =>  true / false",
    "    \"2024-01-01\" < \"2024-02-01\"  =>  true"]

/-- Conditions on references. -/
def filterLines : List String :=
  ["FILTERS - Conditions on References",
    "",
    "SYNTAX",
    "  #Source[field OP value]",
    "  \x7bField\x7d[field OP value]",
    "",
    "  field is an identifier, a \"string\" or a \x7bField Reference\x7d.",
    "  value is a string, number (a leading - is allowed), true, false, null, or a",
    "  bare word taken as text.",
    "",
    "OPERATORS",
    "  = or ==        Equal",
    "  !=             Not equal",
    "  < <= > >=      Numeric; entries that are not numbers never match",
    "  contains       Substring, or membership when the field is a list",
    "  startsWith     Text prefix",
    "  endsWith       Text suffix",
    "  isEmpty        Null, \"\" or []   (takes no value)",
    "  isNotEmpty     Anything else    (takes no value)",
    "",
    "  Word operators are case-insensitive.",
    "",
    "EXAMPLES",
    "  #Tasks[Status = \"open\"].COUNT()",
    "  #Orders[Total >= 100].Total.SUM()",
    "  #People[Email endsWith \"@example.com\"]",
    "  #Tasks[Owner isEmpty].COUNT()"]

/-- Reductions of collections. -/
def aggregationLines : List String :=
  ["AGGREGATIONS - Reducing Collections",
    "",
    "SYNTAX",
    "  source.MODE()",
    "  source.MODE(property)",
    "  source.CONCAT(property, \"separator\")",
    "",
    "  A bare identifier or \x7bField\x7d argument projects that property first.",
    "  A string argument is the CONCAT separator (default \", \").",
    "  A single value is treated as a one-element collection; null as empty.",
    "",
    "MODES",
    "  SUM       Sum of numeric entries             empty => 0",
    "  AVG       Mean of numeric entries            empty => 0",
    "  MIN       Smallest numeric entry             empty => null",
    "  MAX       Largest numeric entry              empty => null",
    "  COUNT     Number of entries                  empty => 0",
    "  FIRST     First entry                        empty => null",
    "  LAST      Last entry                         empty => null",
    "  CONCAT    Non-null entries joined as text    empty => \"\"",
    "  COLLECT   The collection itself",
    "",
    "EXAMPLES",
    "  #LineItems.Amount.SUM()",
    "  #Orders.SUM(Total)",
    "  #Tags.CONCAT(Name, \" / \")"]

/-- The builtin functions. -/
def functionLines : List String :=
  ["FUNCTIONS - Builtin Library",
    "",
    "Names are case-insensitive. Array arguments to numeric functions are",
    "flattened.",
    "",
    "TEXT",
    "  CONCATENATE(a, ...)  CONCAT(a, ...)   Join as text",
    "  LEFT(text, n=1)  RIGHT(text, n=1)      Leading / trailing characters",
    "  MID(text, start, count)                start is 1-based",
    "  LEN(text)                              Characters (or array length)",
    "  LOWER(text)  UPPER(text)  TRIM(text)",
    "",
    "NUMERIC",
    "  SUM  AVERAGE/AVG  MAX  MIN             Over numeric arguments",
    "  COUNT(...)                             Number of numeric arguments",
    "  ABS(x)  FLOOR(x)  CEIL/CEILING(x)",
    "  ROUND(x, digits=0)                     Halves round away from zero",
    "  SQRT(x)                                Negative x is an error",
    "  POWER(x, y)",
    "",
    "LOGICAL",
    "  IF(cond, then, else=null)",
    "  AND(...)  OR(...)  NOT(x)",
    "  SWITCH(subject, match1, result1, ..., default?)",
    "",
    "DATES",
    "  NOW()                                  \"2024-03-05T10:20:30Z\"",
    "  TODAY()                                \"2024-03-05\"",
    "  YEAR(d)  MONTH(d)  DAY(d)",
    "  DATETIME_FORMAT(d, \"YYYY-MM-DD\")       Tokens: YYYY MM DD HH mm ss",
    "  DATETIME_PARSE(text)                   Returns its argument",
    "",
    "  Dates are RFC 3339, YYYY-MM-DD, YYYY-MM-DD HH:MM:SS, YYYY-MM-DDTHH:MM:SS,",
    "  or integer epoch milliseconds.",
    "",
    "ARRAYS",
    "  ARRAYUNIQUE(arr)  ARRAYCOMPACT(arr)  ARRAYJOIN(arr, sep=\", \")",
    "",
    "CONTROL",
    "  COALESCE(a, ...)                       First non-empty argument",
    "  BLANK()                                null",
    "  ERROR(message)                         Fails with message",
    "  RECORD_ID(record?)                     Id of the record or the current one"]

/-- The operators and the stored form. -/
def pipelineLines : List String :=
  ["PIPELINES - The Six Operators",
    "",
    "Every formula compiles to a pipeline: a list of steps threading one value.",
    "",
    "  CONNECT     Load a node's value, a relational set, or linked records.",
    "              Unresolved names give [] and a warning.",
    "  SEGMENT     Keep records matching a condition.",
    "  DESIGNATE   Read a property (of each record, or of the current record).",
    "  SYNTHESIZE  Reduce a collection (SUM, COUNT, ...).",
    "  ALTER       Literal, arithmetic or function call. Operands and arguments",
    "              are nested pipelines.",
    "  NULL        Replace null, \"\" or [] with a default.",
    "",
    "PERSISTED FORMAT",
    "  [",
    "    \x7b\"operator\": \"CONNECT\", \"source\": \"Tasks\"\x7d,",
    "    \x7b\"operator\": \"SEGMENT\", \"condition\": " ++
      "\x7b\"field\": \"Status\", \"op\": \"eq\", \"value\": \"open\"\x7d\x7d,",
    "    \x7b\"operator\": \"SYNTHESIZE\", \"mode\": \"COUNT\"\x7d",
    "  ]",
    "",
    "  ALTER steps carry a \"kind\": \"literal\", \"arithmetic\" or \"function\".",
    "  A step that cannot be decoded is kept and fails only when evaluated.",
    "",
    "INSPECTING",
    "  pipeform inspect '#Orders.SUM(Total)'",
    "    1. CONNECT Orders",
    "    2. SYNTHESIZE SUM of Total",
    "",
    "  pipeform parse '\x7bAmount\x7d * 2'",
    "  pipeform eval '\x7bAmount\x7d * 2' --record '\x7b\"Amount\": 4\x7d' --trace"]

/-- Named results and workbooks. -/
def nodeLines : List String :=
  ["NODES - Named Results and Workbooks",
    "",
    "A node is a named pipeline. Nodes reference each other with #Name; the",
    "names a formula reads are its dependencies.",
    "",
    "CACHING",
    "  A node keeps its last value until it or anything it depends on is",
    "  redefined or invalidated. Defining a node that would depend on itself,",
    "  directly or through others, is rejected.",
    "",
    "WORKBOOKS",
    "  \x7b",
    "    \"sets\": \x7b",
    "      \"Orders\": [\x7b\"id\": \"o1\", \"values\": \x7b\"Total\": 12\x7d\x7d]",
    "    \x7d,",
    "    \"nodes\": [",
    "      \x7b\"id\": \"revenue\", \"formula\": \"#Orders.Total.SUM()\"\x7d,",
    "      \x7b\"id\": \"target\", \"formula\": \"#revenue * 1.1\", \"label\": \"Target\"\x7d",
    "    ]",
    "  \x7d",
    "",
    "  A set is either an array of records or \x7b\"records\": [...], \"fields\":",
    "  [\x7b\"id\", \"name\"\x7d]\x7d. A node gives either a \"formula\" or a persisted",
    "  \"pipeline\".",
    "",
    "  pipeform run workbook.json          Evaluate every node in dependency order",
    "  pipeform eval '#revenue' --workbook workbook.json"]

def pageLines : Topic → List String
  | .writing => writingLines
  | .operators => operatorLines
  | .filters => filterLines
  | .aggregations => aggregationLines
  | .functions => functionLines
  | .pipelines => pipelineLines
  | .nodes => nodeLines

/-- Lines of text, each with its end. -/
def ofLines (lines : List String) : String := String.join (lines.map (· ++ "\n"))

def overview : String := ofLines overviewLines

def page (topic : Topic) : String := ofLines (pageLines topic)

end Manual

end FormulaPipeline
