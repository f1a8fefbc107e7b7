/-!
# Keywords

The keywords of the dialect, written as in its texts.  A word is a keyword in any mixture
of upper and lower case, and a few keywords have an alternate spelling.  The reserved
keywords never stand for a name; every other keyword does wherever the grammar wants one.
-/

namespace SqlFront

/-- The words that the dialect knows. -/
inductive Keyword where
  | SELECT | FROM | ADD | AS | ALL | DISTINCT | WHERE | GROUP | BY | GROUPING | SETS | CUBE
  | ROLLUP | ORDER | HAVING | LIMIT | AT | OR | AND | IN | NOT | NO | EXISTS | BETWEEN | LIKE
  | RLIKE | IS | NULL | TRUE | FALSE | NULLS | ASC | DESC | FOR | INTERVAL | CASE | WHEN | THEN
  | ELSE | END | JOIN | CROSS | OUTER | INNER | LEFT | SEMI | RIGHT | FULL | NATURAL | ON
  | LATERAL | WINDOW | OVER | PARTITION | RANGE | ROWS | UNBOUNDED | PRECEDING | FOLLOWING
  | CURRENT | FIRST | AFTER | LAST | ROW | WITH | VALUES | CREATE | TABLE | VIEW | REPLACE
  | INSERT | DELETE | INTO | DESCRIBE | EXPLAIN | FORMAT | LOGICAL | CODEGEN | COST | CAST
  | SHOW | TABLES | COLUMNS | COLUMN | USE | PARTITIONS | FUNCTIONS | DROP | MERGE | LIFECYCLE
  | UNION | EXCEPT | MINUS | INTERSECT | TO | TABLESAMPLE | STRATIFY | ALTER | RENAME | ARRAY
  | MAP | STRUCT | COMMENT | SET | RESET | DATA | START | TRANSACTION | COMMIT | ROLLBACK
  | MACRO | IGNORE | IF | DIV | PERCENT | BUCKET | OUT | OF | SORT | CLUSTER | DISTRIBUTE
  | OVERWRITE | TRANSFORM | REDUCE | USING | SERDE | SERDEPROPERTIES | RECORDREADER
  | RECORDWRITER | DELIMITED | FIELDS | TERMINATED | COLLECTION | ITEMS | KEYS | ESCAPED
  | LINES | SEPARATED | FUNCTION | EXTENDED | REFRESH | CLEAR | CACHE | UNCACHE | LAZY
  | FORMATTED | GLOBAL | TEMPORARY | OPTIONS | UNSET | TBLPROPERTIES | DBPROPERTIES | BUCKETS
  | SKEWED | STORED | DIRECTORIES | LOCATION | EXCHANGE | ARCHIVE | UNARCHIVE | FILEFORMAT
  | TOUCH | COMPACT | CONCATENATE | CHANGE | CASCADE | RESTRICT | CLUSTERED | SORTED | PURGE
  | INPUTFORMAT | OUTPUTFORMAT | DATABASE | DATABASES | DFS | TRUNCATE | ANALYZE | COMPUTE
  | LIST | STATISTICS | PARTITIONED | EXTERNAL | DEFINED | REVOKE | GRANT | LOCK | UNLOCK
  | MSCK | REPAIR | RECOVER | EXPORT | IMPORT | LOAD | ROLE | ROLES | COMPACTIONS | PRINCIPALS
  | TRANSACTIONS | INDEX | INDEXES | LOCKS | OPTION | ANTI | LOCAL | INPATH | CURRENT_DATE
  | CURRENT_TIMESTAMP
deriving DecidableEq, Repr

namespace Keyword

/-- Every keyword, in the order in which keywords are offered as completions. -/
def all : List Keyword :=
  [.SELECT, .FROM, .ADD, .AS, .ALL, .DISTINCT, .WHERE, .GROUP, .BY, .GROUPING, .SETS, .CUBE,
   .ROLLUP, .ORDER, .HAVING, .LIMIT, .AT, .OR, .AND, .IN, .NOT, .NO, .EXISTS, .BETWEEN, .LIKE,
   .RLIKE, .IS, .NULL, .TRUE, .FALSE, .NULLS, .ASC, .DESC, .FOR, .INTERVAL, .CASE, .WHEN,
   .THEN, .ELSE, .END, .JOIN, .CROSS, .OUTER, .INNER, .LEFT, .SEMI, .RIGHT, .FULL, .NATURAL,
   .ON, .LATERAL, .WINDOW, .OVER, .PARTITION, .RANGE, .ROWS, .UNBOUNDED, .PRECEDING,
   .FOLLOWING, .CURRENT, .FIRST, .AFTER, .LAST, .ROW, .WITH, .VALUES, .CREATE, .TABLE, .VIEW,
   .REPLACE, .INSERT, .DELETE, .INTO, .DESCRIBE, .EXPLAIN, .FORMAT, .LOGICAL, .CODEGEN, .COST,
   .CAST, .SHOW, .TABLES, .COLUMNS, .COLUMN, .USE, .PARTITIONS, .FUNCTIONS, .DROP, .MERGE,
   .LIFECYCLE, .UNION, .EXCEPT, .MINUS, .INTERSECT, .TO, .TABLESAMPLE, .STRATIFY, .ALTER,
   .RENAME, .ARRAY, .MAP, .STRUCT, .COMMENT, .SET, .RESET, .DATA, .START, .TRANSACTION,
   .COMMIT, .ROLLBACK, .MACRO, .IGNORE, .IF, .DIV, .PERCENT, .BUCKET, .OUT, .OF, .SORT,
   .CLUSTER, .DISTRIBUTE, .OVERWRITE, .TRANSFORM, .REDUCE, .USING, .SERDE, .SERDEPROPERTIES,
   .RECORDREADER, .RECORDWRITER, .DELIMITED, .FIELDS, .TERMINATED, .COLLECTION, .ITEMS, .KEYS,
   .ESCAPED, .LINES, .SEPARATED, .FUNCTION, .EXTENDED, .REFRESH, .CLEAR, .CACHE, .UNCACHE,
   .LAZY, .FORMATTED, .GLOBAL, .TEMPORARY, .OPTIONS, .UNSET, .TBLPROPERTIES, .DBPROPERTIES,
   .BUCKETS, .SKEWED, .STORED, .DIRECTORIES, .LOCATION, .EXCHANGE, .ARCHIVE, .UNARCHIVE,
   .FILEFORMAT, .TOUCH, .COMPACT, .CONCATENATE, .CHANGE, .CASCADE, .RESTRICT, .CLUSTERED,
   .SORTED, .PURGE, .INPUTFORMAT, .OUTPUTFORMAT, .DATABASE, .DATABASES, .DFS, .TRUNCATE,
   .ANALYZE, .COMPUTE, .LIST, .STATISTICS, .PARTITIONED, .EXTERNAL, .DEFINED, .REVOKE, .GRANT,
   .LOCK, .UNLOCK, .MSCK, .REPAIR, .RECOVER, .EXPORT, .IMPORT, .LOAD, .ROLE, .ROLES,
   .COMPACTIONS, .PRINCIPALS, .TRANSACTIONS, .INDEX, .INDEXES, .LOCKS, .OPTION, .ANTI, .LOCAL,
   .INPATH, .CURRENT_DATE, .CURRENT_TIMESTAMP]

/-- The canonical spelling. -/
def spelling : Keyword → String
  | .SELECT => "SELECT"
  | .FROM => "FROM"
  | .ADD => "ADD"
  | .AS => "AS"
  | .ALL => "ALL"
  | .DISTINCT => "DISTINCT"
  | .WHERE => "WHERE"
  | .GROUP => "GROUP"
  | .BY => "BY"
  | .GROUPING => "GROUPING"
  | .SETS => "SETS"
  | .CUBE => "CUBE"
  | .ROLLUP => "ROLLUP"
  | .ORDER => "ORDER"
  | .HAVING => "HAVING"
  | .LIMIT => "LIMIT"
  | .AT => "AT"
  | .OR => "OR"
  | .AND => "AND"
  | .IN => "IN"
  | .NOT => "NOT"
  | .NO => "NO"
  | .EXISTS => "EXISTS"
  | .BETWEEN => "BETWEEN"
  | .LIKE => "LIKE"
  | .RLIKE => "RLIKE"
  | .IS => "IS"
  | .NULL => "NULL"
  | .TRUE => "TRUE"
  | .FALSE => "FALSE"
  | .NULLS => "NULLS"
  | .ASC => "ASC"
  | .DESC => "DESC"
  | .FOR => "FOR"
  | .INTERVAL => "INTERVAL"
  | .CASE => "CASE"
  | .WHEN => "WHEN"
  | .THEN => "THEN"
  | .ELSE => "ELSE"
  | .END => "END"
  | .JOIN => "JOIN"
  | .CROSS => "CROSS"
  | .OUTER => "OUTER"
  | .INNER => "INNER"
  | .LEFT => "LEFT"
  | .SEMI => "SEMI"
  | .RIGHT => "RIGHT"
  | .FULL => "FULL"
  | .NATURAL => "NATURAL"
  | .ON => "ON"
  | .LATERAL => "LATERAL"
  | .WINDOW => "WINDOW"
  | .OVER => "OVER"
  | .PARTITION => "PARTITION"
  | .RANGE => "RANGE"
  | .ROWS => "ROWS"
  | .UNBOUNDED => "UNBOUNDED"
  | .PRECEDING => "PRECEDING"
  | .FOLLOWING => "FOLLOWING"
  | .CURRENT => "CURRENT"
  | .FIRST => "FIRST"
  | .AFTER => "AFTER"
  | .LAST => "LAST"
  | .ROW => "ROW"
  | .WITH => "WITH"
  | .VALUES => "VALUES"
  | .CREATE => "CREATE"
  | .TABLE => "TABLE"
  | .VIEW => "VIEW"
  | .REPLACE => "REPLACE"
  | .INSERT => "INSERT"
  | .DELETE => "DELETE"
  | .INTO => "INTO"
  | .DESCRIBE => "DESCRIBE"
  | .EXPLAIN => "EXPLAIN"
  | .FORMAT => "FORMAT"
  | .LOGICAL => "LOGICAL"
  | .CODEGEN => "CODEGEN"
  | .COST => "COST"
  | .CAST => "CAST"
  | .SHOW => "SHOW"
  | .TABLES => "TABLES"
  | .COLUMNS => "COLUMNS"
  | .COLUMN => "COLUMN"
  | .USE => "USE"
  | .PARTITIONS => "PARTITIONS"
  | .FUNCTIONS => "FUNCTIONS"
  | .DROP => "DROP"
  | .MERGE => "MERGE"
  | .LIFECYCLE => "LIFECYCLE"
  | .UNION => "UNION"
  | .EXCEPT => "EXCEPT"
  | .MINUS => "MINUS"
  | .INTERSECT => "INTERSECT"
  | .TO => "TO"
  | .TABLESAMPLE => "TABLESAMPLE"
  | .STRATIFY => "STRATIFY"
  | .ALTER => "ALTER"
  | .RENAME => "RENAME"
  | .ARRAY => "ARRAY"
  | .MAP => "MAP"
  | .STRUCT => "STRUCT"
  | .COMMENT => "COMMENT"
  | .SET => "SET"
  | .RESET => "RESET"
  | .DATA => "DATA"
  | .START => "START"
  | .TRANSACTION => "TRANSACTION"
  | .COMMIT => "COMMIT"
  | .ROLLBACK => "ROLLBACK"
  | .MACRO => "MACRO"
  | .IGNORE => "IGNORE"
  | .IF => "IF"
  | .DIV => "DIV"
  | .PERCENT => "PERCENT"
  | .BUCKET => "BUCKET"
  | .OUT => "OUT"
  | .OF => "OF"
  | .SORT => "SORT"
  | .CLUSTER => "CLUSTER"
  | .DISTRIBUTE => "DISTRIBUTE"
  | .OVERWRITE => "OVERWRITE"
  | .TRANSFORM => "TRANSFORM"
  | .REDUCE => "REDUCE"
  | .USING => "USING"
  | .SERDE => "SERDE"
  | .SERDEPROPERTIES => "SERDEPROPERTIES"
  | .RECORDREADER => "RECORDREADER"
  | .RECORDWRITER => "RECORDWRITER"
  | .DELIMITED => "DELIMITED"
  | .FIELDS => "FIELDS"
  | .TERMINATED => "TERMINATED"
  | .COLLECTION => "COLLECTION"
  | .ITEMS => "ITEMS"
  | .KEYS => "KEYS"
  | .ESCAPED => "ESCAPED"
  | .LINES => "LINES"
  | .SEPARATED => "SEPARATED"
  | .FUNCTION => "FUNCTION"
  | .EXTENDED => "EXTENDED"
  | .REFRESH => "REFRESH"
  | .CLEAR => "CLEAR"
  | .CACHE => "CACHE"
  | .UNCACHE => "UNCACHE"
  | .LAZY => "LAZY"
  | .FORMATTED => "FORMATTED"
  | .GLOBAL => "GLOBAL"
  | .TEMPORARY => "TEMPORARY"
  | .OPTIONS => "OPTIONS"
  | .UNSET => "UNSET"
  | .TBLPROPERTIES => "TBLPROPERTIES"
  | .DBPROPERTIES => "DBPROPERTIES"
  | .BUCKETS => "BUCKETS"
  | .SKEWED => "SKEWED"
  | .STORED => "STORED"
  | .DIRECTORIES => "DIRECTORIES"
  | .LOCATION => "LOCATION"
  | .EXCHANGE => "EXCHANGE"
  | .ARCHIVE => "ARCHIVE"
  | .UNARCHIVE => "UNARCHIVE"
  | .FILEFORMAT => "FILEFORMAT"
  | .TOUCH => "TOUCH"
  | .COMPACT => "COMPACT"
  | .CONCATENATE => "CONCATENATE"
  | .CHANGE => "CHANGE"
  | .CASCADE => "CASCADE"
  | .RESTRICT => "RESTRICT"
  | .CLUSTERED => "CLUSTERED"
  | .SORTED => "SORTED"
  | .PURGE => "PURGE"
  | .INPUTFORMAT => "INPUTFORMAT"
  | .OUTPUTFORMAT => "OUTPUTFORMAT"
  | .DATABASE => "DATABASE"
  | .DATABASES => "DATABASES"
  | .DFS => "DFS"
  | .TRUNCATE => "TRUNCATE"
  | .ANALYZE => "ANALYZE"
  | .COMPUTE => "COMPUTE"
  | .LIST => "LIST"
  | .STATISTICS => "STATISTICS"
  | .PARTITIONED => "PARTITIONED"
  | .EXTERNAL => "EXTERNAL"
  | .DEFINED => "DEFINED"
  | .REVOKE => "REVOKE"
  | .GRANT => "GRANT"
  | .LOCK => "LOCK"
  | .UNLOCK => "UNLOCK"
  | .MSCK => "MSCK"
  | .REPAIR => "REPAIR"
  | .RECOVER => "RECOVER"
  | .EXPORT => "EXPORT"
  | .IMPORT => "IMPORT"
  | .LOAD => "LOAD"
  | .ROLE => "ROLE"
  | .ROLES => "ROLES"
  | .COMPACTIONS => "COMPACTIONS"
  | .PRINCIPALS => "PRINCIPALS"
  | .TRANSACTIONS => "TRANSACTIONS"
  | .INDEX => "INDEX"
  | .INDEXES => "INDEXES"
  | .LOCKS => "LOCKS"
  | .OPTION => "OPTION"
  | .ANTI => "ANTI"
  | .LOCAL => "LOCAL"
  | .INPATH => "INPATH"
  | .CURRENT_DATE => "CURRENT_DATE"
  | .CURRENT_TIMESTAMP => "CURRENT_TIMESTAMP"

/-- The other words that stand for a keyword. -/
def alternates : List (String × Keyword) :=
  [("REGEXP", .RLIKE), ("TEMP", .TEMPORARY), ("SCHEMA", .DATABASE), ("SCHEMAS", .DATABASES)]

/-- The keyword that a word spells, in any case. -/
def lookup? (word : String) : Option Keyword :=
  let upper := word.toUpper
  (all.find? fun k => k.spelling == upper).or (alternates.lookup upper)

/-- Whether the keyword never stands for a name. -/
def isReserved : Keyword → Bool
  | .SELECT | .FROM | .WHERE | .GROUP | .HAVING | .ORDER | .LIMIT | .UNION | .EXCEPT | .MINUS
  | .INTERSECT | .JOIN | .CROSS | .INNER | .LEFT | .RIGHT | .FULL | .NATURAL | .SEMI | .ANTI
  | .ON | .USING | .AS | .AND | .OR | .NOT | .IN | .IS | .LIKE | .RLIKE | .BETWEEN | .CASE
  | .WHEN | .THEN | .ELSE | .END | .NULL | .TRUE | .FALSE | .TO | .INTO | .WITH | .VALUES
  | .DISTINCT | .ALL | .CAST | .EXISTS | .INTERVAL | .DIV | .TABLE | .CURRENT_DATE
  | .CURRENT_TIMESTAMP => true
  | _ => false

/-- The title of a keyword in structured output: its words capitalised and run together. -/
def title : Keyword → String
  | .RLIKE => "RLike"
  | .MINUS => "SetMinus"
  | .TABLESAMPLE => "TableSample"
  | .SERDEPROPERTIES => "SerdeProperties"
  | .RECORDREADER => "RecordReader"
  | .RECORDWRITER => "RecordWriter"
  | .TBLPROPERTIES => "TblProperties"
  | .DBPROPERTIES => "DbProperties"
  | .FILEFORMAT => "FileFormat"
  | .INPUTFORMAT => "InputFormat"
  | .OUTPUTFORMAT => "OutputFormat"
  | .INPATH => "InPath"
  | .CURRENT_DATE => "CurrentDate"
  | .CURRENT_TIMESTAMP => "CurrentTimestamp"
  | k => k.spelling.toLower.capitalize

end Keyword

end SqlFront
